import Mathlib.Data.List.TakeDrop
import ShaderGraph.Glsl.Lexer

/-!
Reading a text to its end. `Lexer.Reads` says, without a bound, which tokens the
lexer makes of its text when no step fails. Every token takes a character, so the
bound that `lex` sets is never met: `lex` reads what `Reads` says, and step after step
in any case (`Lexer.lexed_eq`).
-/

namespace ShaderGraph.Glsl

/-! ## Every token takes a character -/

theorem skipTrivia_suffix {mode : Trivia} {l l' : Location} {text rest : List Char}
    (h : skipTrivia mode l text = .ok (l', rest)) : rest <:+ text := by
  induction text generalizing mode l with
  | nil =>
    rw [skipTrivia] at h
    split at h
    · cases h
    · cases h
      exact List.suffix_refl _
  | cons c text ih =>
    rw [skipTrivia] at h
    split at h
    · exact (ih h).trans (List.suffix_cons c text)
    · cases h
      exact List.suffix_refl _

/-- Two parts make up a text, the first of them not empty. -/
def Splits (text : List Char) (parts : List Char × List Char) : Prop :=
  text = parts.1 ++ parts.2 ∧ parts.1 ≠ []

theorem spanNumber_append (hex : Bool) (previous : Char) (text : List Char) :
    (spanNumber hex previous text).1 ++ (spanNumber hex previous text).2 = text := by
  induction text generalizing previous with
  | nil => rfl
  | cons c text ih =>
    rw [spanNumber]
    split
    · simp [ih]
    · rfl

theorem spanNumber_splits {hex : Bool} {previous c : Char} {text : List Char}
    (h : startsNumber (c :: text)) : Splits (c :: text) (spanNumber hex previous (c :: text)) := by
  refine ⟨(spanNumber_append ..).symm, ?_⟩
  have hc : (c.isAlphanum || c == '.') = true := by
    simp only [startsNumber, Bool.or_eq_true, Bool.and_eq_true] at h
    rcases h with h | ⟨h, _⟩
    · simp [Char.isAlphanum, h]
    · simp [h]
  simp [spanNumber, hc]

theorem spanLogicalLine_append (continued : Bool) (text : List Char) :
    (spanLogicalLine continued text).1 ++ (spanLogicalLine continued text).2 = text := by
  induction text generalizing continued with
  | nil => rfl
  | cons c text ih =>
    rw [spanLogicalLine]
    split
    · rfl
    · simp [ih]

theorem spanLogicalLine_splits {c : Char} {text : List Char} (h : c ≠ '\n') :
    Splits (c :: text) (spanLogicalLine false (c :: text)) := by
  refine ⟨(spanLogicalLine_append ..).symm, ?_⟩
  simp [spanLogicalLine, h]

theorem spanWord_splits {c : Char} {text : List Char} (h : isWordStart c) :
    Splits (c :: text) ((c :: text).span isWordChar) := by
  have hc : isWordChar c := by
    simp only [isWordStart, isWordChar, Char.isAlphanum, Bool.or_eq_true] at h ⊢
    rcases h with h | h
    · exact .inl (.inl h)
    · exact .inr h
  rw [List.span_eq_takeWhile_dropWhile]
  exact ⟨List.takeWhile_append_dropWhile.symm, by simp [hc]⟩

theorem splitAt_splits {c : Char} {text : List Char} {n : Nat} (h : 0 < n) :
    Splits (c :: text) ((c :: text).splitAt n) := by
  rw [List.splitAt_eq]
  refine ⟨(List.take_append_drop ..).symm, ?_⟩
  simp only [ne_eq, List.take_eq_nil_iff, reduceCtorEq, or_false]
  omega

theorem punctuationLength?_pos {text : List Char} {n : Nat}
    (h : punctuationLength? text = some n) : 0 < n := by
  unfold punctuationLength? at h
  split at h
  · cases h; decide
  split at h
  · cases h; decide
  split at h
  · cases h
  split at h
  · cases h; decide
  · cases h

/-- A lexeme is taken off the front of the text. -/
theorem lexeme_splits {lineStart : Bool} {c : Char} {rest : List Char} {kind : TokenKind}
    {parts : List Char × List Char} (h : lexeme lineStart c rest = .ok (kind, parts)) :
    Splits (c :: rest) parts := by
  simp only [lexeme] at h
  split at h
  · rename_i hc
    split at h
    · cases h
      exact spanLogicalLine_splits (by rw [hc]; decide)
    · cases h
  split at h
  · rename_i hc
    cases h
    exact spanWord_splits hc
  split at h
  · rename_i hc
    cases h
    exact spanNumber_splits hc
  split at h
  · rename_i hn
    cases h
    exact splitAt_splits (punctuationLength?_pos hn)
  · cases h

namespace Lexer

theorem step_shortens {lexer next : Lexer} {t : Token} (h : lexer.step = .token t next) :
    next.rest.length < lexer.rest.length := by
  unfold step at h
  split at h
  · cases h
  · cases h
  · rename_i l c rest htrivia
    split at h
    · cases h
    · rename_i kind text later hlexeme
      cases h
      have hsuffix := (skipTrivia_suffix htrivia).length_le
      obtain ⟨he, hne⟩ := lexeme_splits hlexeme
      simp only at he hne
      rw [he, List.length_append] at hsuffix
      have hpos := List.length_pos_iff.mpr hne
      show later.length < lexer.rest.length
      omega

/-- The tokens that the lexer makes of its text, when it gets to the end of it. -/
inductive Reads : Lexer → List Token → Prop
  | finished {lexer : Lexer} {stop : Location} : lexer.step = .finished stop → Reads lexer []
  | token {lexer next : Lexer} {t : Token} {tokens : List Token} :
      lexer.step = .token t next → Reads next tokens → Reads lexer (t :: tokens)

theorem reads_iff_run {n : Nat} {lexer : Lexer} {tokens : List Token}
    (hn : lexer.rest.length < n) :
    Reads lexer tokens ↔ (run n lexer).ending.error = none ∧ (run n lexer).tokens = tokens := by
  induction n generalizing lexer tokens with
  | zero => omega
  | succ n ih =>
    rw [run]
    cases hstep : lexer.step with
    | finished stop =>
      simp only [true_and]
      constructor
      · intro h
        cases h with
        | finished _ => rfl
        | token h _ => cases hstep.symm.trans h
      · rintro rfl
        exact .finished hstep
    | failed error stop =>
      simp only [reduceCtorEq, false_and, iff_false]
      intro h
      cases h with
      | finished h => cases hstep.symm.trans h
      | token h _ => cases hstep.symm.trans h
    | token t next =>
      have hshort := step_shortens hstep
      simp only
      constructor
      · intro h
        cases h with
        | finished h => cases hstep.symm.trans h
        | token h hrest =>
          cases hstep.symm.trans h
          obtain ⟨herror, htokens⟩ := (ih (by omega)).mp hrest
          exact ⟨herror, by rw [htokens]⟩
      · rintro ⟨herror, rfl⟩
        exact .token hstep ((ih (by omega)).mpr ⟨herror, rfl⟩)

/-- All tokens that the lexer makes of its text, and how it ends. -/
def lexed (lexer : Lexer) : Lexed := lexer.run (lexer.rest.length + 1)

/-- Steps beyond the characters of the text change nothing. -/
theorem run_eq_lexed {n : Nat} {lexer : Lexer} (hn : lexer.rest.length < n) :
    lexer.run n = lexer.lexed := by
  have hmore : ∀ (m n : Nat) (lexer : Lexer), lexer.rest.length < m → lexer.rest.length < n →
      lexer.run m = lexer.run n := by
    intro m
    induction m with
    | zero =>
      intro n lexer hm _
      omega
    | succ m ih =>
      intro n lexer hm hn
      obtain ⟨n, rfl⟩ : ∃ k, n = k + 1 := ⟨n - 1, by omega⟩
      rw [run, run]
      cases hstep : lexer.step with
      | finished stop => rfl
      | failed error stop => rfl
      | token t next =>
        have hshort := step_shortens hstep
        simp only [ih n next (by omega) (by omega)]
  exact hmore n _ lexer hn (Nat.lt_succ_self _)

/-- **The lexer reads on after each step.** -/
theorem lexed_eq (lexer : Lexer) : lexer.lexed =
    match lexer.step with
    | .finished stop => ⟨[], stop, none⟩
    | .failed error stop => ⟨[], stop, some error⟩
    | .token t next => ⟨t :: next.lexed.tokens, next.lexed.ending⟩ := by
  rw [lexed, run]
  cases hstep : lexer.step with
  | finished stop => rfl
  | failed error stop => rfl
  | token t next => simp only [run_eq_lexed (step_shortens hstep)]

theorem reads_iff_lexed {lexer : Lexer} {tokens : List Token} :
    Reads lexer tokens ↔ lexer.lexed.ending.error = none ∧ lexer.lexed.tokens = tokens :=
  reads_iff_run (Nat.lt_succ_self _)

end Lexer

theorem reads_iff_lex {source : String} {tokens : List Token} :
    Lexer.Reads { rest := source.toList } tokens ↔
      (lex source).ending.error = none ∧ (lex source).tokens = tokens :=
  Lexer.reads_iff_lexed

end ShaderGraph.Glsl
