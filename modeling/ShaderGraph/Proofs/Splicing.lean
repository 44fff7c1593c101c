import Mathlib.Data.List.DropRight
import ShaderGraph.Proofs.Boundary
import ShaderGraph.Proofs.Relocation

/-!
Splicing texts. White space can be cut off the end of a text (`definitions_trim`), and
a text can be put on the lines below another one (`extract_newline`), unless the line
between them goes on: no comment, directive or token reaches across the newline, so
that the functions of both are found one after the other, and an error of the lower
text where that text is now.
-/

namespace ShaderGraph.Glsl

/-! ## Reading further down -/

theorem Location.down_advance (k : Nat) (l : Location) (c : Char) :
    (l.down k).advance c = (l.advance c).down k := by
  unfold advance
  split
  · simp [down, Nat.add_right_comm]
  · rfl

theorem Location.down_after (k : Nat) (l : Location) (text : List Char) :
    (l.down k).after text = (l.after text).down k := by
  induction text generalizing l with
  | nil => rfl
  | cons c text ih => rw [after_cons, after_cons, down_advance, ih]

theorem Location.line_after (l : Location) (text : List Char) :
    (l.after text).line = l.line + text.count '\n' := by
  induction text generalizing l with
  | nil => rfl
  | cons c text ih =>
    rw [after_cons, ih, List.count_cons, advance]
    by_cases hc : c = '\n'
    · simp [hc, Nat.add_comm, Nat.add_left_comm]
    · simp [hc]

theorem Location.advance_newline (l : Location) :
    l.advance '\n' = Location.start.down l.line := by
  simp [advance, start, down, Nat.add_comm]

/-- The state so many lines further down. -/
def Trivia.down (k : Nat) : Trivia → Trivia
  | opening opened => opening (opened.down k)
  | block opened => block (opened.down k)
  | between => between
  | line => line
  | closing => closing

theorem Trivia.step_down (k : Nat) (mode : Trivia) (l : Location) (c : Char)
    (next : Option Char) :
    (mode.down k).step (l.down k) c next = (mode.step l c next).map (Trivia.down k) := by
  cases mode with
  | between =>
    simp only [down, step]
    split
    · rfl
    split
    · rfl
    split <;> rfl
  | line =>
    simp only [down, step]
    split <;> rfl
  | opening opened => rfl
  | block opened =>
    simp only [down, step]
    split <;> rfl
  | closing => rfl

theorem skipTrivia_down (k : Nat) (mode : Trivia) (l : Location) (text : List Char) :
    skipTrivia (mode.down k) (l.down k) text =
      match skipTrivia mode l text with
      | .ok (l', rest) => .ok (l'.down k, rest)
      | .error (opened, stop) => .error (opened.down k, stop.down k) := by
  induction text generalizing mode l with
  | nil => cases mode <;> rfl
  | cons c text ih =>
    rw [skipTrivia, skipTrivia, Trivia.step_down, Location.down_advance]
    cases mode.step l c text.head? with
    | none => rfl
    | some mode' => exact ih mode' (l.advance c)

namespace Lexer

variable {lexer next : Lexer} {t : Token}

/-- The lexer so many lines further down. -/
def down (k : Nat) (lexer : Lexer) : Lexer :=
  { lexer with location := lexer.location.down k }

/-- **What one step does.** -/
theorem step_eq_token :
    lexer.step = .token t next ↔ ∃ l c rest kind text later,
      skipTrivia .between lexer.location lexer.rest = .ok (l, c :: rest) ∧
        lexeme (!lexer.started || lexer.location.line < l.line) c rest = .ok (kind, text, later) ∧
        t = ⟨kind, String.ofList text, l⟩ ∧ next = ⟨later, l.after text, true⟩ := by
  unfold step
  constructor
  · intro h
    split at h
    · cases h
    · cases h
    · rename_i l c rest htrivia
      split at h
      · cases h
      · rename_i kind text later hlexeme
        cases h
        exact ⟨l, c, rest, kind, text, later, htrivia, hlexeme, rfl, rfl⟩
  · rintro ⟨l, c, rest, kind, text, later, htrivia, hlexeme, rfl, rfl⟩
    simp only [htrivia, hlexeme]

theorem step_eq_finished {stop : Location} :
    lexer.step = .finished stop ↔
      skipTrivia .between lexer.location lexer.rest = .ok (stop, []) := by
  unfold step
  constructor
  · intro h
    split at h
    · cases h
    · rename_i htrivia
      cases h
      exact htrivia
    · split at h <;> cases h
  · intro h
    simp only [h]

/-- The step so many lines further down. -/
def stepDown (k : Nat) : LexStep → LexStep
  | .token t next => .token (t.moved (Location.down k)) (next.down k)
  | .finished stop => .finished (stop.down k)
  | .failed error stop => .failed (error.moved (Location.down k)) (stop.down k)

theorem step_down (k : Nat) (lexer : Lexer) : (lexer.down k).step = stepDown k lexer.step := by
  have htrivia := skipTrivia_down k .between lexer.location lexer.rest
  unfold step
  rw [show skipTrivia .between (lexer.down k).location (lexer.down k).rest = _ from htrivia]
  rcases skipTrivia .between lexer.location lexer.rest with ⟨opened, stop⟩ | ⟨l, _ | ⟨c, rest⟩⟩
  · rfl
  · rfl
  · have hstart : decide ((lexer.down k).location.line < (l.down k).line) =
        decide (lexer.location.line < l.line) := by simp [Lexer.down, Location.down]
    simp only [hstart, show (lexer.down k).started = lexer.started from rfl]
    rcases lexeme (!lexer.started || decide (lexer.location.line < l.line)) c rest with
      fault | ⟨kind, text, later⟩
    · rfl
    · simp only [stepDown, Token.moved, Lexer.down, Location.down_after]

/-- **A text further down** is read the same way. -/
theorem lexed_down (k : Nat) (lexer : Lexer) :
    (lexer.down k).lexed = lexer.lexed.moved (Location.down k) := by
  have hrun : ∀ (n : Nat) (lexer : Lexer),
      (lexer.down k).run n = (lexer.run n).moved (Location.down k) := by
    intro n
    induction n with
    | zero => exact fun _ => rfl
    | succ n ih =>
      intro lexer
      rw [run, run, step_down]
      cases lexer.step with
      | finished stop => rfl
      | failed error stop => rfl
      | token t next => simp only [stepDown, ih, Lexed.moved, List.map_cons]
  exact hrun _ lexer

/-- Lexers between which there is only trivia read the same, if a directive may stand
ahead of both or of neither. -/
theorem step_of_skipTrivia {other : Lexer}
    (htrivia : skipTrivia .between lexer.location lexer.rest =
      skipTrivia .between other.location other.rest)
    (hstart : ∀ line, other.location.line ≤ line →
      (!lexer.started || decide (lexer.location.line < line)) =
        (!other.started || decide (other.location.line < line))) : lexer.step = other.step := by
  unfold step
  rw [htrivia]
  cases hother : skipTrivia .between other.location other.rest with
  | error opened => rfl
  | ok found =>
    obtain ⟨l, _ | ⟨c, rest⟩⟩ := found
    · rfl
    · have hline : other.location.line ≤ l.line := by
        obtain ⟨front, _, rfl⟩ := skipTrivia_split hother
        rw [Location.line_after]
        omega
      simp only [hstart l.line hline]

/-- A lexer whose text is on a later line is at the start of a line. -/
theorem step_of_later_line {other : Lexer}
    (htrivia : skipTrivia .between lexer.location lexer.rest =
      skipTrivia .between other.location other.rest)
    (hstarted : other.started = false) (hline : lexer.location.line < other.location.line) :
    lexer.step = other.step := by
  refine step_of_skipTrivia htrivia ?_
  intro line hle
  have hlt : lexer.location.line < line := by omega
  simp [hstarted, hlt]

theorem lexed_of_step {other : Lexer} (h : lexer.step = other.step) :
    lexer.lexed = other.lexed := by
  rw [lexed_eq, h, ← lexed_eq]

theorem Reads.of_step {other : Lexer} {tokens : List Token} (h : Reads other tokens)
    (hstep : lexer.step = other.step) : Reads lexer tokens := by
  cases h with
  | finished hother => exact .finished (hstep.trans hother)
  | token hother hrest => exact .token (hstep.trans hother) hrest

/-! ## A text on the lines below -/

theorem goesOn_of_directive {u rest : List Char} {c : Char} (hu : goesOn false u = false)
    (hin : c :: rest <:+ u) (hc : c = '#') : goesOn false (c :: rest) = false := by
  subst hc
  rw [← goesOn_of_suffix hin (by decide) (by decide) false]
  exact hu

/-- A newline ends every token. -/
theorem lexeme_newline {lineStart : Bool} {c : Char} {rest text later : List Char}
    {kind : TokenKind} (hgoes : c = '#' → goesOn false (c :: rest) = false)
    (h : lexeme lineStart c rest = .ok (kind, text, later)) (more : List Char) :
    lexeme lineStart c (rest ++ '\n' :: more) = .ok (kind, text, later ++ '\n' :: more) := by
  by_cases hc : c = '#'
  · have hline := spanLogicalLine_newline (hgoes hc) more
    unfold lexeme at h ⊢
    simp only [hc, ↓reduceIte] at h hline ⊢
    rw [List.cons_append] at hline
    cases lineStart with
    | false => cases h
    | true =>
      cases h
      exact congrArg (fun parts => Except.ok (TokenKind.directive, parts)) hline
  · have hx : Boundary ('\n' :: more) := boundary_cons more (by decide)
    rw [lexeme_append hx hc, h]
    rfl

/-- **The tokens of a text and of the lines below it.** -/
theorem Reads.lexed_newline {u : List Char} {tokens : List Token} (h : Reads lexer tokens)
    (hu : goesOn false u = false) (hsuffix : lexer.rest <:+ u) (below : List Char) :
    lexed { lexer with rest := lexer.rest ++ '\n' :: below } =
      let later := (lexed { rest := below }).moved
        (Location.down (lexer.location.after lexer.rest).line)
      ⟨tokens ++ later.tokens, later.ending⟩ := by
  have hx : Boundary ('\n' :: below) := boundary_cons below (by decide)
  induction h with
  | @finished lexer stop hstep =>
    obtain ⟨mode, hclosed, hthrough⟩ := skipTrivia_ends (step_eq_finished.mp hstep)
    have hnext := hthrough _ hx
    rw [skipTrivia_newline hclosed, Location.advance_newline] at hnext
    have hline : lexer.location.line <
        (Location.start.down (lexer.location.after lexer.rest).line).line := by
      simp only [Location.start, Location.down, Location.line_after]
      omega
    have hsame : step { lexer with rest := lexer.rest ++ '\n' :: below } =
        step (Lexer.down (lexer.location.after lexer.rest).line { rest := below }) :=
      step_of_later_line hnext rfl hline
    rw [lexed_of_step hsame, lexed_down]
    rfl
  | @token lexer next t tokens hstep _ ih =>
    obtain ⟨l, c, rest, kind, text, later, htrivia, hlexeme, rfl, rfl⟩ := step_eq_token.mp hstep
    obtain ⟨front, hfront, hl⟩ := skipTrivia_split htrivia
    have hrest : c :: rest = text ++ later := (lexeme_splits hlexeme).1
    have hin : c :: rest <:+ u := (skipTrivia_suffix htrivia).trans hsuffix
    -- the place behind the text is the same, whether it is reached in one step or in several
    have hend : (l.after text).after later = lexer.location.after lexer.rest := by
      rw [hfront, Location.after_append, ← hl, ← Location.after_append, hrest]
    have hlater : later <:+ u := (List.suffix_append text later).trans (hrest ▸ hin)
    have hread := ih hlater
    simp only [hend] at hread
    have hstep' : step { lexer with rest := lexer.rest ++ '\n' :: below } =
        .token ⟨kind, String.ofList text, l⟩ ⟨later ++ '\n' :: below, l.after text, true⟩ :=
      step_eq_token.mpr ⟨l, c, rest ++ '\n' :: below, kind, text, later ++ '\n' :: below,
        skipTrivia_stops htrivia hx, lexeme_newline (goesOn_of_directive hu hin) hlexeme below,
        rfl, rfl⟩
    rw [lexed_eq, hstep']
    simp only [hread, List.cons_append]

/-! ## White space at the end -/

theorem Reads.nil (h : lexer.rest = []) : Reads lexer [] := by
  have hend : skipTrivia .between lexer.location lexer.rest = .ok (lexer.location, []) := by
    rw [h]
    rfl
  exact .finished (step_eq_finished.mpr hend)

theorem Reads.of_blank {tokens : List Token} (h : Reads lexer tokens)
    (hblank : ∀ c ∈ lexer.rest, Text.isBlank c) : tokens = [] := by
  cases h with
  | finished _ => rfl
  | token hstep _ =>
    obtain ⟨l, c, rest, _, _, _, htrivia, _⟩ := step_eq_token.mp hstep
    rw [skipTrivia_blank hblank] at htrivia
    cases htrivia

/-- White space behind a token stays behind it, unless the token is a directive. -/
theorem lexeme_trim {lineStart : Bool} {c : Char} {rest w text later : List Char}
    {kind : TokenKind} (hgoes : c = '#' → goesOn false (c :: rest) = false)
    (hw : ∀ c ∈ w, Text.isBlank c)
    (h : lexeme lineStart c (rest ++ w) = .ok (kind, text, later)) :
    (∃ later', later = later' ++ w ∧ lexeme lineStart c rest = .ok (kind, text, later')) ∨
      kind = .directive ∧ lexeme lineStart c rest = .ok (.directive, c :: rest, []) ∧
        ∀ c ∈ later, Text.isBlank c := by
  by_cases hc : c = '#'
  · unfold lexeme at h ⊢
    simp only [hc, ↓reduceIte] at h hgoes ⊢
    cases lineStart with
    | false => cases h
    | true =>
      have hparts : spanLogicalLine false ('#' :: rest ++ w) = (text, later) := by
        cases h
        rfl
      have hkind : kind = .directive := by
        cases h
        rfl
      subst hkind
      rcases spanLogicalLine_blank (hgoes trivial) hw with hsame | ⟨hself, hblank⟩
      · rw [hparts] at hsame
        cases hsame
        exact .inl ⟨_, rfl, rfl⟩
      · rw [hparts] at hblank
        exact .inr ⟨rfl, by simp [hself], hblank⟩
  · rw [lexeme_append (boundary_of_blank hw) hc] at h
    cases hself : lexeme lineStart c rest with
    | error e =>
      rw [hself] at h
      cases h
    | ok found =>
      rw [hself] at h
      cases h
      exact .inl ⟨_, rfl, rfl⟩

/-- The same tokens, up to the text of a directive at the end. -/
inductive UpToDirective : List Token → List Token → Prop
  | same {tokens : List Token} : UpToDirective tokens tokens
  | last {front : List Token} {d d' : Token} : d.kind = .directive → d'.kind = .directive →
      UpToDirective (front ++ [d]) (front ++ [d'])

theorem UpToDirective.cons {tokens tokens' : List Token} (h : UpToDirective tokens tokens')
    (t : Token) : UpToDirective (t :: tokens) (t :: tokens') := by
  cases h with
  | same => exact .same
  | @last front d d' hd hd' =>
    rw [← List.cons_append, ← List.cons_append]
    exact .last hd hd'

theorem UpToDirective.one {d d' : Token} (hd : d.kind = .directive) (hd' : d'.kind = .directive) :
    UpToDirective [d] [d'] := by
  rw [← List.nil_append [d], ← List.nil_append [d']]
  exact .last hd hd'

theorem UpToDirective.items {tokens tokens' : List Token} {signatures : List Signature}
    (h : UpToDirective tokens tokens') (hi : Items tokens signatures) :
    Items tokens' signatures := by
  cases h with
  | same => exact hi
  | last hd hd' => exact hi.last_directive rfl hd hd'

/-- **White space at the end** makes no token. -/
theorem Reads.trim {u w : List Char} {tokens : List Token} (hu : goesOn false u = false)
    (hw : ∀ c ∈ w, Text.isBlank c) (h : Reads lexer tokens) {v : List Char}
    (hrest : lexer.rest = v ++ w) (hsuffix : v <:+ u) :
    ∃ tokens', Reads { lexer with rest := v } tokens' ∧ UpToDirective tokens tokens' := by
  have hx : Boundary w := boundary_of_blank hw
  induction h generalizing v with
  | @finished lexer stop hstep =>
    rw [step_eq_finished, hrest] at hstep
    rcases skipTrivia_append .between lexer.location v with ⟨_, _, _, hstop⟩ | ⟨mode, hthrough⟩
    · rw [hstop w hx] at hstep
      cases hstep
    · rw [hthrough w hx, skipTrivia_blank hw] at hstep
      have hself := hthrough [] boundary_nil
      split at hstep
      · cases hstep
      · rename_i hclosed
        rw [List.append_nil, skipTrivia, hclosed] at hself
        exact ⟨[], .finished (step_eq_finished.mpr hself), .same⟩
  | @token lexer next t tokens hstep hreads ih =>
    obtain ⟨l, c, rest', kind, text, later, htrivia, hlexeme, rfl, rfl⟩ := step_eq_token.mp hstep
    rw [hrest] at htrivia
    rcases skipTrivia_append .between lexer.location v with
      ⟨l', c', rest, hstop⟩ | ⟨mode, hthrough⟩
    · rw [hstop w hx] at htrivia
      cases htrivia
      have htrivia := hstop [] boundary_nil
      rw [List.append_nil, List.append_nil] at htrivia
      have hin : c :: rest <:+ u := (skipTrivia_suffix htrivia).trans hsuffix
      rcases lexeme_trim (goesOn_of_directive hu hin) hw hlexeme with
        ⟨later', rfl, hself⟩ | ⟨rfl, hself, hblank⟩
      · have hlater : later' <:+ u :=
          (List.suffix_append text later').trans ((lexeme_splits hself).1 ▸ hin)
        obtain ⟨tokens', hreads', hsame⟩ := ih rfl hlater
        exact ⟨_, .token (step_eq_token.mpr ⟨l, c, rest, kind, text, later', htrivia, hself, rfl,
          rfl⟩) hreads', hsame.cons _⟩
      · cases hreads.of_blank hblank
        have hone : Reads { lexer with rest := v } [⟨.directive, String.ofList (c :: rest), l⟩] :=
          .token (step_eq_token.mpr ⟨l, c, rest, .directive, c :: rest, [], htrivia, hself, rfl,
            rfl⟩) (.nil rfl)
        exact ⟨_, hone, .one rfl rfl⟩
    · rw [hthrough w hx, skipTrivia_blank hw] at htrivia
      split at htrivia <;> cases htrivia

end Lexer

/-! ## The functions of a text -/

theorem definitions_eq_ok {source : String} {found : List Definition} :
    definitions source = .ok found ↔
      ∃ tokens signatures, Lexer.Reads { rest := source.toList } tokens ∧
        Items tokens signatures ∧ found = supported signatures := by
  rw [definitions, extract, extractItems_eq_ok (Nat.le_refl _)]
  simp only [reads_iff_lex]
  constructor
  · rintro ⟨herror, signatures, hitems, hfound⟩
    exact ⟨_, signatures, ⟨herror, rfl⟩, hitems, hfound⟩
  · rintro ⟨_, signatures, ⟨herror, rfl⟩, hitems, hfound⟩
    exact ⟨herror, signatures, hitems, hfound⟩

theorem definitions_trim {u w : String} {found : List Definition}
    (hu : goesOn false u.toList = false) (hw : ∀ c ∈ w.toList, Text.isBlank c)
    (h : definitions (u ++ w) = .ok found) : definitions u = .ok found := by
  obtain ⟨tokens, signatures, hreads, hitems, hfound⟩ := definitions_eq_ok.mp h
  obtain ⟨tokens', hreads', hsame⟩ :=
    hreads.trim hu hw String.toList_append (List.suffix_refl u.toList)
  exact definitions_eq_ok.mpr ⟨tokens', signatures, hreads', hsame.items hitems, hfound⟩

/-- More steps than tokens change nothing. -/
theorem extractItems_bound {ending : Ending} {n m : Nat} {tokens : List Token}
    (hn : tokens.length ≤ n) (hm : tokens.length ≤ m) :
    extractItems ending n tokens = extractItems ending m tokens := by
  induction n generalizing m tokens with
  | zero =>
    obtain rfl := List.eq_nil_of_length_eq_zero (Nat.le_zero.mp hn)
    rw [extractItems, extractItems]
  | succ n ih =>
    rcases tokens with _ | ⟨first, tokens⟩
    · rw [extractItems, extractItems]
    rw [List.length_cons] at hn hm
    obtain ⟨m, rfl⟩ : ∃ k, m = k + 1 := ⟨m - 1, by omega⟩
    rw [extractItems, extractItems]
    cases hitem : item ending first tokens with
    | error e => rfl
    | ok left =>
      obtain ⟨found, rest⟩ := left
      have hlength := item_shortens hitem
      have hlater : extractItems ending n rest = extractItems ending m rest :=
        ih (by omega) (by omega)
      cases found <;> simp only [hlater]

/-- The items at the front are extracted, whatever follows them. -/
theorem extractItems_items {ending : Ending} {n m : Nat} {w more : List Token}
    {signatures : List Signature} (h : Items w signatures) (hn : (w ++ more).length ≤ n)
    (hm : more.length ≤ m) :
    extractItems ending n (w ++ more) =
      (supported signatures).map .ok ++ extractItems ending m more := by
  induction h generalizing n with
  | nil => exact extractItems_bound hn hm
  | @cons w v found later hi hv ih =>
    obtain ⟨first, tokens, rfl⟩ := hi.starts
    rw [List.append_assoc, List.cons_append] at hn ⊢
    rw [List.length_cons, List.length_append] at hn
    obtain ⟨n, rfl⟩ : ∃ k, n = k + 1 := ⟨n - 1, by omega⟩
    have hitem : item ending first (tokens ++ (v ++ more)) = .ok (found, v ++ more) :=
      item_eq_ok.mpr ⟨first :: tokens, rfl, hi⟩
    have hlater := ih (n := n) (by omega)
    rw [extractItems, hitem]
    cases found with
    | none => exact hlater
    | some s =>
      by_cases hs : s.isSupported
      · simp only [hs, ↓reduceIte, hlater, Option.toList_some, List.cons_append, List.nil_append,
          supported_cons hs, List.map_cons]
      · simp only [hs, Bool.false_eq_true, ↓reduceIte, hlater, Option.toList_some,
          List.singleton_append, supported_skip hs]

/-- **What is extracted from a text and the lines below it.** -/
theorem extract_newline {u below : String} {found : List Definition}
    (hu : goesOn false u.toList = false) (h : definitions u = .ok found) :
    extract (u ++ "\n" ++ below) = found.map .ok ++ (extract below).map
      (movedOutcome (Location.down (Location.start.after u.toList).line) id) := by
  obtain ⟨tokens, signatures, hreads, hitems, rfl⟩ := definitions_eq_ok.mp h
  have hlex := hreads.lexed_newline hu (List.suffix_refl u.toList) below.toList
  have htext : (u ++ "\n" ++ below).toList = u.toList ++ '\n' :: below.toList := by
    simp [String.toList_append]
  rw [← htext] at hlex
  have hall : lex (u ++ "\n" ++ below) = _ := hlex
  simp only [extract, hall]
  rw [extractItems_items hitems (Nat.le_refl _) (Nat.le_refl _)]
  simp only [Lexed.moved, List.length_map]
  rw [extractItems_moved]
  rfl

/-- The functions of a text and of the lines below it. -/
theorem definitions_newline {u below : String} {found more : List Definition}
    (hu : goesOn false u.toList = false) (h : definitions u = .ok found)
    (hbelow : definitions below = .ok more) :
    definitions (u ++ "\n" ++ below) = .ok (found ++ more) := by
  rw [definitions, mapM_id_eq_ok] at hbelow ⊢
  rw [extract_newline hu h, hbelow, List.map_map, List.map_append]
  rfl

/-! ## Trimmed texts -/

theorem toList_trimEnd (text : String) :
    (Text.trimEnd text).toList = (text.toList.reverse.dropWhile Text.isBlank).reverse := by
  simp [Text.trimEnd]

/-- What is trimmed off is white space. -/
theorem trimEnd_append (text : String) :
    ∃ w : String, text = Text.trimEnd text ++ w ∧ ∀ c ∈ w.toList, Text.isBlank c := by
  refine ⟨String.ofList (text.toList.reverse.takeWhile Text.isBlank).reverse, ?_, ?_⟩
  · apply String.toList_inj.mp
    rw [String.toList_append, toList_trimEnd, String.toList_ofList, ← List.reverse_append,
      List.takeWhile_append_dropWhile, List.reverse_reverse]
  · intro c hc
    rw [String.toList_ofList, List.mem_reverse] at hc
    exact List.all_eq_true.mp List.all_takeWhile c hc

/-- A trimmed text that ends in no backslash does not go on. -/
theorem goesOn_trimEnd {text : String} (h : (Text.trimEnd text).toList.getLast? ≠ some '\\') :
    goesOn false (Text.trimEnd text).toList = false := by
  rw [toList_trimEnd] at h ⊢
  rw [List.getLast?_reverse] at h
  cases hd : text.toList.reverse.dropWhile Text.isBlank with
  | nil => rfl
  | cons c rest =>
    have hblank : Text.isBlank c = false := by
      have hhead := List.head?_dropWhile_not Text.isBlank text.toList.reverse
      rw [hd] at hhead
      exact hhead
    have hback : c ≠ '\\' := by
      rintro rfl
      simp [hd] at h
    have hreturn : c ≠ '\r' := by
      rintro rfl
      cases hblank
    rw [List.reverse_cons]
    have hin : [c] <:+ rest.reverse ++ [c] := List.suffix_append _ _
    rw [goesOn_of_suffix hin hback hreturn]
    simp [goesOn, hback]

theorem definitions_trimEnd {code : String} {found : List Definition}
    (hlast : (Text.trimEnd code).toList.getLast? ≠ some '\\')
    (h : definitions code = .ok found) : definitions (Text.trimEnd code) = .ok found := by
  obtain ⟨w, hw, hblank⟩ := trimEnd_append code
  rw [hw] at h
  exact definitions_trim (goesOn_trimEnd hlast) hblank h

/-! ## One text after the other -/

/-- A line goes on if it ends in a backslash, carriage returns behind that aside. -/
theorem goesOn_eq (text : List Char) :
    goesOn false text = ((text.rdropWhile (· == '\r')).getLast? == some '\\') := by
  induction text using List.reverseRecOn with
  | nil => rfl
  | append_singleton text c ih =>
    have hlast : goesOn false (text ++ [c]) = (c == '\\' || (c == '\r' && goesOn false text)) := by
      simp [goesOn]
    rw [hlast, ih, List.rdropWhile_concat]
    by_cases hreturn : c = '\r'
    · subst hreturn
      simp
    · simp [hreturn]

/-- **A text below another one.** If the upper text has no error and its last line does
not go on, then what is extracted from both together is what each of them gives alone,
first the upper and then the lower one. An error of the lower text stays the same fault
in the same column, so many lines further down. -/
theorem extract_spliced (upper lower : String) (found : List Definition)
    (h : definitions upper = .ok found)
    (hline : (upper.toList.rdropWhile (· == '\r')).getLast? ≠ some '\\') :
    extract (upper ++ "\n" ++ lower) = found.map .ok ++ (extract lower).map
      (Except.mapError (SyntaxError.moved (Location.down (1 + upper.toList.count '\n')))) := by
  have hgoes : goesOn false upper.toList = false := by
    rw [goesOn_eq, beq_eq_false_iff_ne]
    exact hline
  have hmoved : ∀ f : Location → Location,
      movedOutcome f (id : Definition → Definition) = Except.mapError (SyntaxError.moved f) := by
    intro f
    funext outcome
    cases outcome <;> rfl
  rw [extract_newline hgoes h, Location.line_after, hmoved]
  rfl

/-- A macro over two lines and a comment above, a directive and an open header below. -/
theorem extract_spliced_error :
    definitions "#define A 1 \\\r\n 2\nfloat f(vec2 p); // f" = .ok
        [⟨[⟨.vec2, "p"⟩], [⟨.float, "f"⟩]⟩] ∧
      ("#define A 1 \\\r\n 2\nfloat f(vec2 p); // f".toList.rdropWhile (· == '\r')).getLast? ≠
        some '\\' ∧
      extract ("#define A 1 \\\r\n 2\nfloat f(vec2 p); // f" ++ "\n" ++
          "#define B\nvoid g();\nvec2 h(float x;") =
        [.ok ⟨[⟨.vec2, "p"⟩], [⟨.float, "f"⟩]⟩, .ok ⟨[], []⟩,
          .error ⟨⟨6, 15⟩, .unexpectedToken ";" "`,` or `)`"⟩] := by
  have hupper : definitions "#define A 1 \\\r\n 2\nfloat f(vec2 p); // f" = .ok
      [⟨[⟨.vec2, "p"⟩], [⟨.float, "f"⟩]⟩] := by decide +kernel
  have hline : ("#define A 1 \\\r\n 2\nfloat f(vec2 p); // f".toList.rdropWhile
      (· == '\r')).getLast? ≠ some '\\' := by decide +kernel
  refine ⟨hupper, hline, ?_⟩
  rw [extract_spliced _ "#define B\nvoid g();\nvec2 h(float x;" _ hupper hline]
  decide +kernel

end ShaderGraph.Glsl
