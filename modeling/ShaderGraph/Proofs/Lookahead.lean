import ShaderGraph.Proofs.Brackets
import ShaderGraph.Proofs.Cursor

/-!
A cursor stands before the tokens that its lexer would still give, and before how they end
(`StandsAt`). What it takes or looks at is then the front of a list, and behind the last
token it meets what the list keeps there: the error of the lexer, or the end of the text.
Brackets and statements are skipped alike, whether the tokens are a list or are made on
the way (`Agree`).
-/

namespace ShaderGraph.Glsl

section Agree

variable {α β γ δ : Type} {R : α → β → Prop} {S : γ → δ → Prop}

/-- Two computations that fail with the same error, or give results that `R` relates. -/
inductive Agree (R : α → β → Prop) : Except SyntaxError α → Except SyntaxError β → Prop
  | ok {a : α} {b : β} : R a b → Agree R (.ok a) (.ok b)
  | error (e : SyntaxError) : Agree R (.error e) (.error e)

namespace Agree

theorem bind {x : Except SyntaxError α} {y : Except SyntaxError β} {f : α → Except SyntaxError γ}
    {g : β → Except SyntaxError δ} (h : Agree R x y) (hk : ∀ a b, R a b → Agree S (f a) (g b)) :
    Agree S (x >>= f) (y >>= g) := by
  cases h with
  | ok h => exact hk _ _ h
  | error e => exact .error e

theorem witnessed_bind {x : Except SyntaxError α} {y : Except SyntaxError β}
    {f : { a // x = .ok a } → Except SyntaxError γ} {g : β → Except SyntaxError δ}
    (h : Agree R x y)
    (hk : ∀ a b (ha : x = .ok a), y = .ok b → R a b → Agree S (f ⟨a, ha⟩) (g b)) :
    Agree S (witnessed x >>= f) (y >>= g) := by
  cases h with
  | ok h => exact hk _ _ rfl rfl h
  | error e => exact .error e

theorem bind_error {x : Except SyntaxError α} {f : α → Except SyntaxError γ} {e : SyntaxError}
    (h : Agree R x (.error e)) : Agree S (x >>= f) (.error e) := by
  cases h
  exact .error e

/-- A step that both computations share. -/
theorem bind_same {x : Except SyntaxError α} {f : α → Except SyntaxError γ}
    {g : α → Except SyntaxError δ} (hk : ∀ a, Agree S (f a) (g a)) :
    Agree S (x >>= f) (x >>= g) := by
  cases x with
  | ok a => exact hk a
  | error e => exact .error e

theorem ite_same {p : Prop} [Decidable p] {x x' : Except SyntaxError α}
    {y y' : Except SyntaxError β} (h : Agree R x y) (h' : Agree R x' y') :
    Agree R (if p then x else x') (if p then y else y') := by
  split
  · exact h
  · exact h'

theorem map {f : β → δ} {x : Except SyntaxError α} {y : Except SyntaxError β}
    {T : α → δ → Prop} (h : Agree R x y) (hf : ∀ a b, R a b → T a (f b)) :
    Agree T x (y.map f) := by
  cases h with
  | ok h => exact .ok (hf _ _ h)
  | error e => exact .error e

end Agree

theorem witnessed_bind_ok {x : Except SyntaxError α} {k : { a // x = .ok a } → Except SyntaxError γ}
    {a : α} (h : x = .ok a) : (witnessed x >>= k) = k ⟨a, h⟩ := by
  subst h
  rfl

theorem witnessed_bind_error {x : Except SyntaxError α}
    {k : { a // x = .ok a } → Except SyntaxError γ} {e : SyntaxError} (h : x = .error e) :
    (witnessed x >>= k) = .error e := by
  subst h
  rfl

end Agree

/-! ## One token -/

namespace Ending

variable {ending : Ending} {e : SyntaxError}

theorem missing_of_error (h : ending.error = some e) (expected : String) :
    ending.missing expected = e := by
  rw [missing, h, Option.getD_some]

theorem missing_of_none (h : ending.error = none) (expected : String) :
    ending.missing expected = ⟨ending.stop, .unexpectedEnd expected⟩ := by
  rw [missing, h, Option.getD_none]

theorem check_of_error (h : ending.error = some e) : ending.check = .error e := by
  rw [check, h]

theorem check_of_none (h : ending.error = none) : ending.check = .ok () := by
  rw [check, h]

/-- A computation that reports the error of the lexer may check for it first. -/
theorem check_bind {α : Type} {x : Except SyntaxError α}
    (h : ∀ e, ending.error = some e → x = .error e) : (ending.check >>= fun _ => x) = x := by
  cases he : ending.error with
  | none =>
    rw [check_of_none he]
    rfl
  | some e =>
    rw [check_of_error he, h e he]
    rfl

theorem check_bind_missing {α : Type} (expected : String) :
    (ending.check >>= fun _ => (.error (ending.missing expected) : Except SyntaxError α)) =
      .error (ending.missing expected) :=
  check_bind fun _ he => congrArg Except.error (missing_of_error he expected)

end Ending

namespace Lexer

variable {lexer : Lexer} {ending : Ending} {t : Token} {tokens : List Token}

theorem pull_cons (h : lexer.lexed = ⟨t :: tokens, ending⟩) :
    ∃ next, lexer.pull = .ok (some t, next) ∧ next.lexed = ⟨tokens, ending⟩ := by
  rw [lexed_eq] at h
  unfold pull
  cases hstep : lexer.step with
  | token x next =>
    rw [hstep] at h
    cases h
    exact ⟨next, rfl, rfl⟩
  | finished stop =>
    rw [hstep] at h
    cases h
  | failed e stop =>
    rw [hstep] at h
    cases h

/-- A lexer that has come to the end stays there. -/
theorem pull_nil (h : lexer.lexed = ⟨[], ending⟩) :
    (∃ e, ending.error = some e ∧ lexer.pull = .error e) ∨
      ending.error = none ∧ ∃ next, lexer.pull = .ok (none, next) ∧
        next.lexed = ⟨[], ending⟩ ∧ next.location = ending.stop := by
  rw [lexed_eq] at h
  unfold pull
  cases hstep : lexer.step with
  | token x next =>
    rw [hstep] at h
    cases h
  | finished stop =>
    rw [hstep] at h
    cases h
    exact .inr ⟨rfl, _, rfl, lexed_eq _, rfl⟩
  | failed e stop =>
    rw [hstep] at h
    cases h
    exact .inl ⟨e, rfl, rfl⟩

end Lexer

namespace Cursor

/-- The cursor stands before these tokens, which end like this. -/
structure StandsAt (ending : Ending) (cursor : Cursor) (tokens : List Token) : Prop where
  tokens_eq : cursor.peeked.toList ++ cursor.lexer.lexed.tokens = tokens
  ending_eq : cursor.lexer.lexed.ending = ending

/-- A result beside the place where the reading goes on, for a cursor and for a list. -/
inductive With {α : Type} (ending : Ending) : α × Cursor → α × List Token → Prop
  | mk {a : α} {cursor : Cursor} {tokens : List Token} :
      StandsAt ending cursor tokens → With ending (a, cursor) (a, tokens)

variable {ending : Ending} {cursor : Cursor} {t : Token} {tokens : List Token}

theorem standsAt_lexer {lexer : Lexer} (h : lexer.lexed = ⟨tokens, ending⟩) :
    StandsAt ending { lexer } tokens :=
  ⟨congrArg Lexed.tokens h, congrArg Lexed.ending h⟩

/-- At the end nothing is taken by looking, and the error of the lexer is met. -/
theorem StandsAt.nil (h : StandsAt ending cursor []) :
    (∃ e, ending.error = some e ∧ cursor.next = .error e ∧ cursor.peek = .error e) ∨
      ending.error = none ∧ ∃ later, cursor.next = .ok (none, later) ∧
        cursor.peek = .ok (none, later) ∧ StandsAt ending later [] ∧
        later.lexer.location = ending.stop := by
  obtain ⟨lexer, peeked⟩ := cursor
  obtain ⟨htokens, rfl⟩ := h
  obtain ⟨hpeeked, htokens⟩ := List.append_eq_nil_iff.mp htokens
  obtain rfl : peeked = none := Option.toList_eq_nil_iff.mp hpeeked
  have hlexed : lexer.lexed = ⟨[], lexer.lexed.ending⟩ := congrArg (Lexed.mk · _) htokens
  rcases Lexer.pull_nil hlexed with ⟨e, he, hpull⟩ | ⟨he, left, hpull, hleft, hstop⟩
  · refine .inl ⟨e, he, ?_, ?_⟩
    · rw [next, hpull]
      rfl
    · rw [peek, hpull]
      rfl
  · refine .inr ⟨he, { lexer := left }, ?_, ?_, standsAt_lexer hleft, hstop⟩
    · rw [next, hpull]
      rfl
    · rw [peek, hpull]
      rfl

theorem StandsAt.next (h : StandsAt ending cursor (t :: tokens)) :
    ∃ later, cursor.next = .ok (some t, later) ∧ StandsAt ending later tokens := by
  obtain ⟨lexer, _ | x⟩ := cursor
  · obtain ⟨htokens, rfl⟩ := h
    have hlexed : lexer.lexed = ⟨t :: tokens, lexer.lexed.ending⟩ := congrArg (Lexed.mk · _) htokens
    obtain ⟨left, hpull, hleft⟩ := Lexer.pull_cons hlexed
    refine ⟨{ lexer := left }, ?_, standsAt_lexer hleft⟩
    rw [Cursor.next, hpull]
    rfl
  · obtain ⟨htokens, rfl⟩ := h
    obtain ⟨rfl, rfl⟩ := List.cons.inj htokens
    exact ⟨{ lexer }, rfl, standsAt_lexer rfl⟩

/-- The token that was looked at is the next one to be taken. -/
theorem StandsAt.peek (h : StandsAt ending cursor (t :: tokens)) :
    ∃ ahead, cursor.peek = .ok (some t, ahead) ∧ StandsAt ending ahead (t :: tokens) := by
  obtain ⟨lexer, _ | x⟩ := cursor
  · obtain ⟨htokens, rfl⟩ := h
    have hlexed : lexer.lexed = ⟨t :: tokens, lexer.lexed.ending⟩ := congrArg (Lexed.mk · _) htokens
    obtain ⟨left, hpull, hleft⟩ := Lexer.pull_cons hlexed
    refine ⟨{ lexer := left, peeked := some t }, ?_, ?_, ?_⟩
    · rw [Cursor.peek, hpull]
      rfl
    · simp only [hleft, Option.toList_some, List.singleton_append]
    · simp only [hleft]
  · obtain ⟨rfl, rfl⟩ := List.cons.inj h.tokens_eq
    exact ⟨_, rfl, h⟩

theorem StandsAt.expect_nil (h : StandsAt ending cursor []) (expected : String) :
    cursor.expect expected = .error (ending.missing expected) := by
  rw [expect]
  rcases h.nil with ⟨e, he, hnext, _⟩ | ⟨he, later, hnext, _, _, hstop⟩
  · rw [hnext, Ending.missing_of_error he]
    rfl
  · rw [hnext, Ending.missing_of_none he, ← hstop]
    rfl

theorem StandsAt.expect (h : StandsAt ending cursor (t :: tokens)) (expected : String) :
    ∃ later, cursor.expect expected = .ok (t, later) ∧ StandsAt ending later tokens := by
  obtain ⟨later, hnext, hlater⟩ := h.next
  refine ⟨later, ?_, hlater⟩
  rw [Cursor.expect, hnext]
  rfl

theorem StandsAt.expectMark_nil (h : StandsAt ending cursor []) (mark : String) :
    cursor.expectMark mark = .error (ending.missing (quoted mark)) := by
  rw [expectMark, h.expect_nil]
  rfl

theorem StandsAt.expectMark (h : StandsAt ending cursor (t :: tokens)) {mark : String}
    (ht : t.isPunctuation mark) :
    ∃ later, cursor.expectMark mark = .ok (t, later) ∧ StandsAt ending later tokens := by
  obtain ⟨later, hexpect, hlater⟩ := h.expect (quoted mark)
  refine ⟨later, ?_, hlater⟩
  rw [Cursor.expectMark, hexpect]
  exact if_pos ht

theorem StandsAt.not_expectMark (h : StandsAt ending cursor (t :: tokens)) {mark : String}
    (ht : ¬ t.isPunctuation mark) :
    cursor.expectMark mark = .error (t.unexpected (quoted mark)) := by
  obtain ⟨later, hexpect, _⟩ := h.expect (quoted mark)
  rw [Cursor.expectMark, hexpect]
  exact if_neg ht

theorem StandsAt.peek_nil (h : StandsAt ending cursor []) :
    Agree (fun p _ => p.1 = none ∧ StandsAt ending p.2 []) cursor.peek ending.check := by
  rcases h.nil with ⟨e, he, _, hpeek⟩ | ⟨he, later, _, hpeek, hlater, _⟩
  · rw [hpeek, Ending.check_of_error he]
    exact .error e
  · rw [hpeek, Ending.check_of_none he]
    exact .ok ⟨rfl, hlater⟩

theorem StandsAt.eat_nil (h : StandsAt ending cursor []) (mark : String) :
    Agree (fun p _ => p.1 = false ∧ StandsAt ending p.2 []) (cursor.eat mark) ending.check := by
  rw [← bind_pure ending.check]
  refine h.peek_nil.bind ?_
  rintro ⟨_, later⟩ _ ⟨rfl, hlater⟩
  exact .ok ⟨rfl, hlater⟩

theorem StandsAt.eat (h : StandsAt ending cursor (t :: tokens)) {mark : String}
    (ht : t.isPunctuation mark) :
    ∃ later, cursor.eat mark = .ok (true, later) ∧ StandsAt ending later tokens := by
  obtain ⟨ahead, hpeek, hahead⟩ := h.peek
  obtain ⟨later, hnext, hlater⟩ := hahead.next
  refine ⟨later, ?_, hlater⟩
  rw [Cursor.eat, hpeek]
  change (if t.isPunctuation mark then _ else _) = _
  rw [if_pos ht, hnext]
  rfl

theorem StandsAt.not_eat (h : StandsAt ending cursor (t :: tokens)) {mark : String}
    (ht : ¬ t.isPunctuation mark) :
    ∃ later, cursor.eat mark = .ok (false, later) ∧ StandsAt ending later (t :: tokens) := by
  obtain ⟨ahead, hpeek, hahead⟩ := h.peek
  refine ⟨ahead, ?_, hahead⟩
  rw [Cursor.eat, hpeek]
  change (if t.isPunctuation mark then _ else _) = _
  rw [if_neg ht]
  rfl

end Cursor

/-! ## Brackets and statements -/

/-- The brackets that are open are closed first. -/
theorem skipUntil_brackets {ending : Ending} {stops bars : Token → Bool} {expected : String}
    (brackets tokens : List Token) :
    skipUntil ending stops bars expected brackets tokens =
      skipBalanced ending brackets tokens >>= skipUntil ending stops bars expected [] := by
  induction tokens generalizing brackets with
  | nil =>
    cases brackets with
    | nil => rfl
    | cons top outer => rfl
  | cons t tokens ih =>
    cases brackets with
    | nil => rfl
    | cons top outer =>
      rw [skipUntil, skipBalanced, bind_assoc]
      exact bind_congr fun brackets => ih brackets

theorem skipQualifiers_brackets {ending : Ending} {expected : String}
    (brackets tokens : List Token) :
    skipQualifiers ending expected brackets tokens =
      skipBalanced ending brackets tokens >>= skipQualifiers ending expected [] := by
  induction tokens generalizing brackets with
  | nil =>
    cases brackets with
    | nil => rfl
    | cons top outer =>
      rw [skipQualifiers, skipBalanced]
      rfl
  | cons t tokens ih =>
    cases brackets with
    | nil => rfl
    | cons top outer =>
      rw [skipQualifiers, skipBalanced, bind_assoc]
      exact bind_congr fun brackets => ih brackets

namespace Cursor

variable {ending : Ending} {cursor : Cursor} {tokens : List Token}

theorem skipBalanced_agree {brackets : List Token} (h : StandsAt ending cursor tokens) :
    Agree (StandsAt ending) (cursor.skipBalanced brackets)
      (Glsl.skipBalanced ending brackets tokens) := by
  induction tokens generalizing cursor brackets with
  | nil =>
    cases brackets with
    | nil =>
      rw [skipBalanced]
      exact .ok h
    | cons top outer =>
      rw [skipBalanced, Glsl.skipBalanced, Ending.unclosed]
      rcases h.nil with ⟨e, he, hnext, _⟩ | ⟨he, later, hnext, _⟩
      · rw [witnessed_bind_error hnext, he]
        exact .error e
      · rw [witnessed_bind_ok hnext, he]
        exact .error _
  | cons t tokens ih =>
    cases brackets with
    | nil =>
      rw [skipBalanced]
      exact .ok h
    | cons top outer =>
      obtain ⟨later, hnext, hlater⟩ := h.next
      rw [skipBalanced, Glsl.skipBalanced, witnessed_bind_ok hnext]
      exact .bind_same fun brackets => ih hlater

theorem skipStatement_agree (h : StandsAt ending cursor tokens) :
    Agree (StandsAt ending) cursor.skipStatement (Glsl.skipStatement ending tokens) := by
  -- the statement is read up to its semicolon, and that is left behind
  suffices hskip : Agree (fun later rest => StandsAt ending later rest.tail) cursor.skipStatement
      (skipUntil ending (·.isPunctuation ";") Token.closes "`;`" [] tokens) from
    hskip.map fun _ _ => id
  fun_induction skipStatement cursor generalizing tokens with
  | case1 cursor ihBalanced ih =>
    cases tokens with
    | nil =>
      rw [witnessed_bind_error (h.expect_nil _), skipUntil]
      exact .error _
    | cons t tokens =>
      obtain ⟨later, hexpect, hlater⟩ := h.expect "`;`"
      rw [witnessed_bind_ok hexpect, skipUntil]
      simp only
      by_cases hsemicolon : t.isPunctuation ";"
      · rw [if_pos hsemicolon, if_pos hsemicolon]
        exact .ok hlater
      rw [if_neg hsemicolon, if_neg hsemicolon]
      by_cases hopens : t.opens
      · rw [if_pos hopens, if_neg (Token.not_closes_of_opens hopens), if_pos hopens,
          skipUntil_brackets]
        exact (skipBalanced_agree hlater).witnessed_bind fun left rest hskip _ hleft =>
          ihBalanced t later hexpect left hskip hleft
      rw [if_neg hopens, if_neg hopens]
      by_cases hcloses : t.closes
      · rw [if_pos hcloses, if_pos hcloses]
        exact .error _
      · rw [if_neg hcloses, if_neg hcloses]
        exact ih t later hexpect hlater

theorem skipDefault_agree (h : StandsAt ending cursor tokens) :
    Agree (StandsAt ending) cursor.skipDefault (Glsl.skipDefault ending tokens) := by
  fun_induction skipDefault cursor generalizing tokens with
  | case1 cursor ihBalanced ih =>
    rw [Glsl.skipDefault]
    cases tokens with
    | nil =>
      rw [skipUntil]
      rcases h.nil with ⟨e, he, _, hpeek⟩ | ⟨he, later, _, hpeek, _, hstop⟩
      · rw [witnessed_bind_error hpeek, Ending.missing_of_error he]
        exact .error e
      · rw [witnessed_bind_ok hpeek, Ending.missing_of_none he, ← hstop]
        exact .error _
    | cons t tokens =>
      obtain ⟨ahead, hpeek, hahead⟩ := h.peek
      obtain ⟨later, hnext, hlater⟩ := hahead.next
      rw [witnessed_bind_ok hpeek, skipUntil]
      simp only
      by_cases hends : t.isPunctuation "," || t.isPunctuation ")"
      · rw [if_pos hends, if_pos hends]
        exact .ok hahead
      rw [if_neg hends, if_neg hends, witnessed_bind_ok hnext]
      simp only
      by_cases hopens : t.opens
      · have hbars : ¬ (t.isPunctuation "]" || t.isPunctuation "\x7d" || t.isPunctuation ";") := by
          simp only [Bool.or_eq_true, not_or]
          exact ⟨⟨Token.not_isPunctuation_of_opens hopens (by decide),
            Token.not_isPunctuation_of_opens hopens (by decide)⟩,
            Token.not_isPunctuation_of_opens hopens (by decide)⟩
        rw [if_pos hopens, if_neg hbars, if_pos hopens, skipUntil_brackets]
        exact (skipBalanced_agree hlater).witnessed_bind fun left rest hskip _ hleft =>
          ihBalanced t ahead hpeek (some t) later hnext left hskip hleft
      rw [if_neg hopens, if_neg hopens]
      by_cases hbars : t.isPunctuation "]" || t.isPunctuation "\x7d" || t.isPunctuation ";"
      · rw [if_pos hbars, if_pos hbars]
        exact .error _
      · rw [if_neg hbars, if_neg hbars]
        exact ih t ahead hpeek (some t) later hnext hlater

end Cursor

end ShaderGraph.Glsl
