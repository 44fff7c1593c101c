import Mathlib.Data.List.Basic
import ShaderGraph.Proofs.Brackets

/-!
Where brackets match, and which one is to blame where they do not. `Closing` looks at the tokens
ahead of the open brackets; `Opening` looks back and says which brackets the tokens behind have
left open. One token changes these as `bracketStep` does (`Opening.step`), and the tokens behind
can be left out of account once it is known what they left open (`Opening.skipBalanced`). So a
failure is traced to the place where it arises, from the front by induction.

`skipBalanced_outcome` says exactly when skipping ends at the closing bracket, at a bracket of the
wrong kind, or at the end of the tokens.
-/

namespace ShaderGraph.Glsl

theorem Nested.append {free : Token → Bool} {u w : List Token} (hu : Nested free u)
    (hw : Nested free w) : Nested free (u ++ w) := by
  induction hu with
  | nil => exact hw
  | plain ho hc hf _ ih => exact .plain ho hc hf (ih hw)
  | @group free o c u later ho hc hu _ _ ih =>
    rw [List.cons_append, List.append_assoc, List.cons_append]
    exact .group ho hc hu (ih hw)

/-- Behind `first`, these tokens have left these brackets open, the innermost one first; `first`
itself is the outermost of them. -/
inductive Opening (first : Token) : List Token → List Token → Prop
  | outermost {w : List Token} : Nested (fun _ => true) w → Opening first w [first]
  | inside {before w brackets : List Token} {o : Token} : Opening first before brackets →
      o.opens → Nested (fun _ => true) w → Opening first (before ++ o :: w) (o :: brackets)

/-- Of the brackets left open by `first` and the tokens behind it, `top` is the innermost. -/
def Innermost (first top : Token) (before : List Token) : Prop :=
  ∃ outer, Opening first before (top :: outer)

/-- `t`, which stands behind `before`, is the first closing bracket that does not close the
innermost open one, which is `top`. -/
structure Mismatch (first top t : Token) (before : List Token) : Prop where
  innermost : Innermost first top before
  closes : t.closes
  differs : ¬ top.closedBy t
  earlier : ∀ front c later, before = front ++ c :: later → c.closes →
    ∃ inner, Innermost first inner front ∧ inner.closedBy c

variable {ending : Ending} {first top t : Token} {before tokens rest outer brackets : List Token}
  {error : SyntaxError}

theorem skipBalanced_of_step (h : bracketStep top outer t = .ok brackets) :
    skipBalanced ending (top :: outer) (t :: tokens) = skipBalanced ending brackets tokens := by
  rw [skipBalanced, h]
  rfl

/-- A nested word changes nothing. -/
theorem Nested.skipBalanced {free : Token → Bool} {w : List Token} (h : Nested free w) :
    Glsl.skipBalanced ending (top :: outer) (w ++ tokens) =
      Glsl.skipBalanced ending (top :: outer) tokens := by
  induction h generalizing top outer tokens with
  | nil => rfl
  | plain ho hc _ _ ih =>
    rw [List.cons_append, skipBalanced_of_step (bracketStep_eq_ok.mpr (.inr (.inr ⟨ho, hc, rfl⟩))),
      ih]
  | @group free o c u w ho hc _ _ ihInner ihLater =>
    rw [List.cons_append, List.append_assoc, List.cons_append,
      skipBalanced_of_step (bracketStep_eq_ok.mpr (.inl ⟨ho, rfl⟩)), ihInner,
      skipBalanced_of_step (bracketStep_eq_ok.mpr (.inr (.inl ⟨hc, rfl⟩))), ihLater]

namespace Opening

theorem append {w : List Token} (h : Opening first before brackets)
    (hw : Nested (fun _ => true) w) : Opening first (before ++ w) brackets := by
  cases h with
  | outermost hbefore => exact .outermost (hbefore.append hw)
  | inside hbefore ho hinner =>
    rw [List.append_assoc, List.cons_append]
    exact .inside hbefore ho (hinner.append hw)

/-- **One token more.** The brackets stay open as the token leaves them, unless it closes the
outermost one. -/
theorem step (h : Opening first before (top :: outer))
    (hstep : bracketStep top outer t = .ok brackets) :
    Opening first (before ++ [t]) brackets ∨ brackets = [] := by
  rcases bracketStep_eq_ok.mp hstep with ⟨ho, rfl⟩ | ⟨hc, rfl⟩ | ⟨ho, hc, rfl⟩
  · exact .inl (.inside h ho .nil)
  · cases h with
    | outermost => exact .inr rfl
    | @inside before w _ _ hbefore ho hw =>
      -- the bracket and what it encloses are now part of the word behind the next one
      have hgroup : Nested (fun _ => true) (top :: (w ++ [t])) := .group ho hc hw .nil
      rw [List.append_assoc, List.cons_append]
      exact .inl (hbefore.append hgroup)
  · exact .inl (h.append (.plain ho hc rfl .nil))

/-- What is behind counts only by the brackets it leaves open. -/
theorem skipBalanced (h : Opening first before brackets) :
    Glsl.skipBalanced ending [first] (before ++ tokens) =
      Glsl.skipBalanced ending brackets tokens := by
  induction h generalizing tokens with
  | outermost hw => exact hw.skipBalanced
  | @inside before w brackets o hbefore ho hw ih =>
    rw [List.append_assoc, List.cons_append, ih]
    cases brackets with
    | nil => cases hbefore
    | cons top outer =>
      rw [skipBalanced_of_step (bracketStep_eq_ok.mpr (.inl ⟨ho, rfl⟩)), hw.skipBalanced]

end Opening

theorem Innermost.skipBalanced_nil (h : Innermost first top tokens) :
    skipBalanced ending [first] tokens = .error (ending.unclosed top) := by
  obtain ⟨outer, h⟩ := h
  rw [← List.append_nil tokens, h.skipBalanced, skipBalanced]

theorem Innermost.skipBalanced_cons (h : Innermost first top before) (hc : t.closes)
    (hne : ¬ top.closedBy t) :
    skipBalanced ending [first] (before ++ t :: rest) =
      .error (t.unexpected (quoted top.closer)) := by
  obtain ⟨outer, h⟩ := h
  rw [h.skipBalanced, skipBalanced, bracketStep_eq_error.mpr ⟨hc, hne, rfl⟩]
  rfl

/-- **Where a failure arises.** -/
theorem Opening.blames (hbefore : Opening first before brackets)
    (h : Glsl.skipBalanced ending brackets tokens = .error error) :
    (∃ w t rest top, tokens = w ++ t :: rest ∧ Innermost first top (before ++ w) ∧ t.closes ∧
      ¬ top.closedBy t ∧ error = t.unexpected (quoted top.closer)) ∨
      ∃ top, Innermost first top (before ++ tokens) ∧ error = ending.unclosed top := by
  induction tokens generalizing before brackets with
  | nil =>
    cases brackets with
    | nil => cases h
    | cons top outer =>
      cases h
      exact .inr ⟨top, ⟨outer, by rwa [List.append_nil]⟩, rfl⟩
  | cons t tokens ih =>
    cases brackets with
    | nil => cases h
    | cons top outer =>
      rw [Glsl.skipBalanced] at h
      rcases bind_eq_error.mp h with hstep | ⟨brackets, hstep, h⟩
      · obtain ⟨hc, hne, rfl⟩ := bracketStep_eq_error.mp hstep
        exact .inl ⟨[], t, tokens, top, rfl, ⟨outer, by rwa [List.append_nil]⟩, hc, hne, rfl⟩
      rcases hbefore.step hstep with hnext | hnone
      · rcases ih hnext h with ⟨w, s, rest, inner, rfl, hinner, hblame⟩ | ⟨inner, hinner, rfl⟩
        · exact .inl ⟨t :: w, s, rest, inner, rfl, by simpa using hinner, hblame⟩
        · exact .inr ⟨inner, by simpa using hinner, rfl⟩
      · rw [hnone, Glsl.skipBalanced] at h
        cases h

/-- Skipping fails at a closing bracket of the wrong kind or at the end. -/
theorem skipBalanced_eq_error :
    skipBalanced ending [first] tokens = .error error ↔
      (∃ before t rest top, tokens = before ++ t :: rest ∧ Innermost first top before ∧ t.closes ∧
        ¬ top.closedBy t ∧ error = t.unexpected (quoted top.closer)) ∨
        ∃ top, Innermost first top tokens ∧ error = ending.unclosed top := by
  constructor
  · exact Opening.blames (.outermost .nil)
  · rintro (⟨before, t, rest, top, rfl, htop, hc, hne, rfl⟩ | ⟨top, htop, rfl⟩)
    · exact htop.skipBalanced_cons hc hne
    · exact htop.skipBalanced_nil

/-- Behind an open bracket, every closing one has closed the innermost that was open there. -/
theorem Innermost.earlier (h : Innermost first top before) {front later : List Token} {c : Token}
    (hfront : before = front ++ c :: later) (hc : c.closes) :
    ∃ inner, Innermost first inner front ∧ inner.closedBy c := by
  subst hfront
  -- all of it is read up to an end without an error, so nothing can go wrong earlier
  have hwhole : skipBalanced ⟨.start, none⟩ [first] (front ++ c :: later) = .error top.unclosed :=
    h.skipBalanced_nil
  cases hskip : skipBalanced ⟨.start, none⟩ [first] front with
  | ok rest =>
    obtain ⟨w, d, rest, rfl, hw, hd, _⟩ := skipBalanced_eq_ok.mp hskip
    have hclosed : skipBalanced ⟨.start, none⟩ [first] (w ++ d :: (rest ++ c :: later)) =
        .ok (rest ++ c :: later) := skipBalanced_eq_ok.mpr ⟨w, d, _, rfl, hw, hd, rfl⟩
    rw [List.append_assoc, List.cons_append, hclosed] at hwhole
    cases hwhole
  | error error =>
    rcases skipBalanced_eq_error.mp hskip with
      ⟨w, d, rest, inner, rfl, hinner, hd, hne, _⟩ | ⟨inner, hinner, _⟩
    · rw [List.append_assoc, List.cons_append, hinner.skipBalanced_cons hd hne] at hwhole
      simp [Token.unexpected, Token.unclosed] at hwhole
    · refine ⟨inner, hinner, ?_⟩
      by_contra hne
      rw [hinner.skipBalanced_cons hc hne] at hwhole
      simp [Token.unexpected, Token.unclosed] at hwhole

theorem Innermost.mismatch (h : Innermost first top before) (hc : t.closes)
    (hne : ¬ top.closedBy t) : Mismatch first top t before :=
  ⟨h, hc, hne, fun _ _ _ hfront hearlier => h.earlier hfront hearlier⟩

/-- There is one way to split tokens at the bracket that closes the first one. -/
theorem closing_unique {w w' rest' : List Token} {c c' : Token} (hw : Nested (fun _ => true) w)
    (hc : first.closedBy c) (hw' : Nested (fun _ => true) w') (hc' : first.closedBy c')
    (h : w ++ c :: rest = w' ++ c' :: rest') : w = w' ∧ c = c' ∧ rest = rest' := by
  have hleft : skipBalanced ⟨.start, none⟩ [first] (w ++ c :: rest) = .ok rest :=
    skipBalanced_eq_ok.mpr ⟨w, c, rest, rfl, hw, hc, rfl⟩
  have hright : skipBalanced ⟨.start, none⟩ [first] (w ++ c :: rest) = .ok rest' :=
    skipBalanced_eq_ok.mpr ⟨w', c', rest', h, hw', hc', rfl⟩
  rw [hleft] at hright
  cases hright
  have hfront : w ++ [c] = w' ++ [c'] := (List.append_left_inj rest).mp (by simpa using h)
  obtain ⟨hword, hlast⟩ := List.append_inj' hfront rfl
  exact ⟨hword, by simpa using hlast, rfl⟩

/-- **Skipping a bracket.** In front of tokens that end without an error of the lexer, and behind
an opening bracket: what is left over is `rest` exactly if the tokens are a nested word, a bracket
that closes the opening one, and `rest`, and there is one such way to split them. A closing bracket
is blamed exactly if it is the first one that does not close the innermost open bracket; the text
that would have closed it is the one expected. An open bracket is blamed exactly if it is the
innermost one when the tokens end. Nothing else goes wrong. -/
theorem skipBalanced_outcome {ending : Ending} (hending : ending.error = none) (first : Token)
    (tokens : List Token) :
    (∀ rest, skipBalanced ending [first] tokens = .ok rest ↔
        ∃ w c, tokens = w ++ c :: rest ∧ Nested (fun _ => true) w ∧ first.closedBy c) ∧
      (∀ w c rest w' c' rest', Nested (fun _ => true) w → first.closedBy c →
        Nested (fun _ => true) w' → first.closedBy c' → tokens = w ++ c :: rest →
        tokens = w' ++ c' :: rest' → w = w' ∧ c = c' ∧ rest = rest') ∧
      (∀ place text expected,
        skipBalanced ending [first] tokens = .error ⟨place, .unexpectedToken text expected⟩ ↔
          ∃ before t rest top, tokens = before ++ t :: rest ∧ Mismatch first top t before ∧
            t.location = place ∧ t.text = text ∧ quoted top.closer = expected) ∧
      (∀ place text, skipBalanced ending [first] tokens = .error ⟨place, .unclosed text⟩ ↔
        ∃ top, Innermost first top tokens ∧ top.location = place ∧ top.text = text) ∧
      ∀ error, skipBalanced ending [first] tokens = .error error →
        (∃ text expected, error.fault = .unexpectedToken text expected) ∨
          ∃ text, error.fault = .unclosed text := by
  have hunclosed : ∀ top : Token, ending.unclosed top = top.unclosed := by
    intro top
    rw [Ending.unclosed, hending, Option.getD_none]
  refine ⟨?_, ?_, ?_, ?_, ?_⟩
  · intro rest
    rw [skipBalanced_eq_ok]
    constructor
    · rintro ⟨w, c, _, he, hw, hc, rfl⟩
      exact ⟨w, c, he, hw, hc⟩
    · rintro ⟨w, c, he, hw, hc⟩
      exact ⟨w, c, rest, he, hw, hc, rfl⟩
  · intro w c rest w' c' rest' hw hc hw' hc' he he'
    exact closing_unique hw hc hw' hc' (he.symm.trans he')
  · intro place text expected
    constructor
    · intro h
      rcases skipBalanced_eq_error.mp h with
        ⟨before, t, rest, top, he, htop, hc, hne, herror⟩ | ⟨top, _, herror⟩
      · cases herror
        exact ⟨before, t, rest, top, he, htop.mismatch hc hne, rfl, rfl, rfl⟩
      · rw [hunclosed] at herror
        cases herror
    · rintro ⟨before, t, rest, top, rfl, hmismatch, rfl, rfl, rfl⟩
      exact hmismatch.innermost.skipBalanced_cons hmismatch.closes hmismatch.differs
  · intro place text
    constructor
    · intro h
      rcases skipBalanced_eq_error.mp h with ⟨_, _, _, _, _, _, _, _, herror⟩ | ⟨top, htop, herror⟩
      · cases herror
      · rw [hunclosed] at herror
        cases herror
        exact ⟨top, htop, rfl, rfl⟩
    · rintro ⟨top, htop, rfl, rfl⟩
      rw [htop.skipBalanced_nil, hunclosed]
      rfl
  · intro error h
    rcases skipBalanced_eq_error.mp h with ⟨_, t, _, top, _, _, _, _, rfl⟩ | ⟨top, _, rfl⟩
    · exact .inl ⟨t.text, quoted top.closer, rfl⟩
    · rw [hunclosed]
      exact .inr ⟨top.text, rfl⟩

/-- Behind a brace, a bracket and a parenthesis are closed in the wrong order. -/
theorem skipBalanced_outcome_crossed :
    (lex "a(b[0)c]\x7d").ending.error = none ∧
      ∃ before t rest top, (lex "a(b[0)c]\x7d").tokens = before ++ t :: rest ∧
        Mismatch ⟨.punctuation, "\x7b", .start⟩ top t before ∧ t.location = ⟨1, 6⟩ ∧ t.text = ")" ∧
        quoted top.closer = "`]`" := by
  have hending : (lex "a(b[0)c]\x7d").ending.error = none := by decide +kernel
  refine ⟨hending, ?_⟩
  apply ((skipBalanced_outcome hending _ _).2.2.1 _ _ _).mp
  decide +kernel

end ShaderGraph.Glsl
