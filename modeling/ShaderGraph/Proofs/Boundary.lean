import ShaderGraph.Proofs.Lexing

/-!
Lexing up to a boundary. White space ends every token but a directive, so what the
lexer does with a text does not depend on what comes after white space behind it:
trivia (`skipTrivia_append`) and lexemes (`lexeme_append`) are the same. A directive
goes on to the end of its line; whether the next newline belongs to it can be told
from the text before (`goesOn`).
-/

namespace ShaderGraph.Glsl

/-- The text is empty or begins with white space. -/
def Boundary (x : List Char) : Prop := ∀ c ∈ x.head?, Text.isBlank c

theorem boundary_nil : Boundary [] := by simp [Boundary]

theorem boundary_cons {c : Char} (x : List Char) (h : Text.isBlank c) : Boundary (c :: x) := by
  simpa [Boundary] using h

theorem boundary_of_blank {w : List Char} (h : ∀ c ∈ w, Text.isBlank c) : Boundary w :=
  fun c hc => h c (List.mem_of_head? hc)

/-- No white space stands in a word or a number. -/
theorem not_isWordChar_of_isBlank {c : Char} (h : Text.isBlank c) : isWordChar c = false := by
  have hn : c.val.toNat = c.toNat := rfl
  have halpha : c.isAlpha = (c.isUpper || c.isLower) := rfl
  have hupper : c.isUpper = decide ('A'.val ≤ c.val ∧ c.val ≤ 'Z'.val) := rfl
  have hlower : c.isLower = (decide ('a'.val ≤ c.val) && decide (c.val ≤ 'z'.val)) := rfl
  simp only [Text.isBlank, Bool.or_eq_true, Bool.and_eq_true, decide_eq_true_eq, beq_iff_eq] at h
  simp only [isWordChar, Char.isAlphanum, halpha, hupper, hlower, Char.isDigit,
    Bool.or_eq_false_iff, Bool.and_eq_false_iff, decide_eq_false_iff_not, ge_iff_le,
    UInt32.le_iff_toNat_le, beq_eq_false_iff_ne, ne_eq, Char.ext_iff, UInt32.toNat_inj.symm, hn,
    UInt32.reduceToNat, Char.reduceVal]
  omega

theorem not_isAlphanum_of_isBlank {c : Char} (h : Text.isBlank c) : c.isAlphanum = false := by
  have hword := not_isWordChar_of_isBlank h
  simp only [isWordChar, Bool.or_eq_false_iff] at hword
  exact hword.1

theorem ne_of_isBlank {b c : Char} (hb : Text.isBlank b) (hc : Text.isBlank c = false) : b ≠ c := by
  rintro rfl
  rw [hb] at hc
  cases hc

section Trivia

variable {x : List Char} (hx : Boundary x)

include hx

theorem Boundary.head?_ne {c : Char} (hc : Text.isBlank c = false) :
    (x.head? == some c) = false := by
  cases x with
  | nil => rfl
  | cons b x =>
    have hb : Text.isBlank b := hx b rfl
    simp [ne_of_isBlank hb hc]

/-- No comment opens or closes across a boundary. -/
theorem Trivia.step_append (mode : Trivia) (l : Location) (c : Char) (text : List Char) :
    mode.step l c (text ++ x).head? = mode.step l c text.head? := by
  cases text with
  | cons d text => rfl
  | nil =>
    have hslash : (x.head? == some '/') = false := hx.head?_ne (by decide)
    have hstar : (x.head? == some '*') = false := hx.head?_ne (by decide)
    cases mode <;> simp [step, hslash, hstar]

end Trivia

/-- **Where trivia ends**: at a character that is no white space and opens no comment. -/
theorem Trivia.step_between_eq_none {l : Location} {c : Char} {next : Option Char} :
    between.step l c next = none ↔
      ¬ Text.isBlank c ∧ ¬ (c = '/' ∧ (next = some '/' ∨ next = some '*')) := by
  simp only [step]
  split_ifs with hblank hline hblock
  · simp [hblank]
  · simp only [Bool.and_eq_true, decide_eq_true_eq, beq_iff_eq] at hline
    simp [hline]
  · simp only [Bool.and_eq_true, decide_eq_true_eq, beq_iff_eq] at hblock
    simp [hblock]
  · simp only [Bool.and_eq_true, decide_eq_true_eq, beq_iff_eq, not_and] at hline hblock
    simp only [hblank, Bool.false_eq_true, not_false_eq_true, true_and, true_iff, not_and, not_or]
    exact fun hc => ⟨hline hc, hblock hc⟩

theorem Location.after_cons (l : Location) (c : Char) (text : List Char) :
    l.after (c :: text) = (l.advance c).after text := rfl

theorem Location.after_append (l : Location) (text more : List Char) :
    l.after (text ++ more) = (l.after text).after more := List.foldl_append

/-- **Trivia before a boundary.** It ends inside the text, or goes on behind it. -/
theorem skipTrivia_append (mode : Trivia) (l : Location) (text : List Char) :
    (∃ l' c rest, ∀ x, Boundary x →
        skipTrivia mode l (text ++ x) = .ok (l', (c :: rest) ++ x)) ∨
      ∃ mode', ∀ x, Boundary x →
        skipTrivia mode l (text ++ x) = skipTrivia mode' (l.after text) x := by
  induction text generalizing mode l with
  | nil => exact .inr ⟨mode, fun _ _ => rfl⟩
  | cons c text ih =>
    cases hstep : mode.step l c text.head? with
    | none =>
      refine .inl ⟨l, c, text, ?_⟩
      intro x hx
      rw [List.cons_append, skipTrivia, Trivia.step_append hx, hstep]
    | some mode' =>
      have hfirst : ∀ x, Boundary x → skipTrivia mode l (c :: text ++ x) =
          skipTrivia mode' (l.advance c) (text ++ x) := by
        intro x hx
        rw [List.cons_append, skipTrivia, Trivia.step_append hx, hstep]
      rcases ih mode' (l.advance c) with ⟨l', d, rest, hstop⟩ | ⟨last, hthrough⟩
      · exact .inl ⟨l', d, rest, fun x hx => (hfirst x hx).trans (hstop x hx)⟩
      · exact .inr ⟨last, fun x hx => (hfirst x hx).trans (hthrough x hx)⟩

theorem skipTrivia_nil {mode : Trivia} {l l' : Location} {rest : List Char}
    (h : skipTrivia mode l [] = .ok (l', rest)) : mode.unclosed? = none ∧ rest = [] := by
  rw [skipTrivia] at h
  split at h
  · cases h
  · rename_i hclosed
    cases h
    exact ⟨hclosed, rfl⟩

theorem skipTrivia_stops {mode : Trivia} {l l' : Location} {c : Char} {text rest x : List Char}
    (h : skipTrivia mode l text = .ok (l', c :: rest)) (hx : Boundary x) :
    skipTrivia mode l (text ++ x) = .ok (l', c :: (rest ++ x)) := by
  rcases skipTrivia_append mode l text with ⟨_, _, _, hstop⟩ | ⟨_, hthrough⟩
  · have hself := hstop [] boundary_nil
    rw [List.append_nil, List.append_nil, h] at hself
    cases hself
    exact hstop x hx
  · have hself := hthrough [] boundary_nil
    rw [List.append_nil, h] at hself
    cases (skipTrivia_nil hself.symm).2

theorem skipTrivia_ends {mode : Trivia} {l l' : Location} {text : List Char}
    (h : skipTrivia mode l text = .ok (l', [])) :
    ∃ mode', mode'.unclosed? = none ∧ ∀ x, Boundary x →
      skipTrivia mode l (text ++ x) = skipTrivia mode' (l.after text) x := by
  rcases skipTrivia_append mode l text with ⟨_, _, _, hstop⟩ | ⟨mode', hthrough⟩
  · have hself := hstop [] boundary_nil
    rw [List.append_nil, h] at hself
    cases hself
  · have hself := hthrough [] boundary_nil
    rw [List.append_nil, h] at hself
    exact ⟨mode', (skipTrivia_nil hself.symm).1, hthrough⟩

theorem Trivia.step_blank {mode : Trivia} {c : Char} (hc : Text.isBlank c) (l : Location)
    (next : Option Char) : ∃ mode', mode.step l c next = some mode' ∧
      mode'.unclosed? = mode.unclosed? := by
  have hstar : c ≠ '*' := ne_of_isBlank hc (by decide)
  cases mode with
  | between => exact ⟨between, by simp [step, hc], rfl⟩
  | line =>
    by_cases hn : c = '\n'
    · exact ⟨between, by simp [step, hn], rfl⟩
    · exact ⟨line, by simp [step, hn], rfl⟩
  | opening opened => exact ⟨block opened, rfl, rfl⟩
  | block opened => exact ⟨block opened, by simp [step, hstar], rfl⟩
  | closing => exact ⟨between, rfl, rfl⟩

/-- White space closes no comment. -/
theorem skipTrivia_blank {w : List Char} (hw : ∀ c ∈ w, Text.isBlank c) (mode : Trivia)
    (l : Location) : skipTrivia mode l w =
      match mode.unclosed? with
      | some opened => .error (opened, l.after w)
      | none => .ok (l.after w, []) := by
  induction w generalizing mode l with
  | nil => rfl
  | cons c w ih =>
    obtain ⟨hc, hrest⟩ := List.forall_mem_cons.mp hw
    obtain ⟨mode', hstep, hsame⟩ := Trivia.step_blank hc l w.head?
    rw [skipTrivia, hstep, ← hsame]
    exact ih hrest mode' (l.advance c)

/-- A newline ends a line comment, and is white space elsewhere. -/
theorem skipTrivia_newline {mode : Trivia} (h : mode.unclosed? = none) (l : Location)
    (text : List Char) :
    skipTrivia mode l ('\n' :: text) = skipTrivia .between (l.advance '\n') text := by
  cases mode with
  | between => rfl
  | line => rfl
  | closing => rfl
  | opening opened => cases h
  | block opened => cases h

/-- Trivia is taken off the front of the text. -/
theorem skipTrivia_split {mode : Trivia} {l l' : Location} {text rest : List Char}
    (h : skipTrivia mode l text = .ok (l', rest)) :
    ∃ front, text = front ++ rest ∧ l' = l.after front := by
  induction text generalizing mode l with
  | nil =>
    rw [skipTrivia] at h
    split at h
    · cases h
    · cases h
      exact ⟨[], rfl, rfl⟩
  | cons c text ih =>
    rw [skipTrivia] at h
    split at h
    · obtain ⟨front, rfl, rfl⟩ := ih h
      exact ⟨c :: front, rfl, rfl⟩
    · cases h
      exact ⟨[], rfl, rfl⟩

/-! ## Lexemes -/

section Lexeme

variable {x : List Char} (hx : Boundary x)

include hx

theorem span_append {p : Char → Bool} (hp : ∀ c, Text.isBlank c → p c = false)
    (text : List Char) : (text ++ x).span p = ((text.span p).1, (text.span p).2 ++ x) := by
  simp only [List.span_eq_takeWhile_dropWhile]
  induction text with
  | nil =>
    cases x with
    | nil => rfl
    | cons b x => simp [hp b (hx b rfl)]
  | cons c text ih =>
    by_cases hc : p c
    · simpa [hc] using ih
    · simp [hc]

theorem spanNumber_boundary (hex : Bool) (previous : Char) (text : List Char) :
    spanNumber hex previous (text ++ x) =
      ((spanNumber hex previous text).1, (spanNumber hex previous text).2 ++ x) := by
  induction text generalizing previous with
  | nil =>
    cases x with
    | nil => rfl
    | cons b x =>
      have hb : Text.isBlank b := hx b rfl
      have hpoint : b ≠ '.' := ne_of_isBlank hb (by decide)
      have hplus : b ≠ '+' := ne_of_isBlank hb (by decide)
      have hminus : b ≠ '-' := ne_of_isBlank hb (by decide)
      simp [spanNumber, not_isAlphanum_of_isBlank hb, hpoint, hplus, hminus]
  | cons c text ih =>
    simp only [List.cons_append, spanNumber]
    split
    · simp [ih]
    · rfl

theorem startsNumber_append (c : Char) (text : List Char) :
    startsNumber (c :: (text ++ x)) = startsNumber (c :: text) := by
  cases text with
  | cons d text => rfl
  | nil =>
    cases x with
    | nil => rfl
    | cons b x =>
      have hb := not_isAlphanum_of_isBlank (hx b rfl)
      simp only [Char.isAlphanum, Bool.or_eq_false_iff] at hb
      simp [startsNumber, hb.2]

theorem isHexadecimal_append (c : Char) (text : List Char) :
    isHexadecimal (c :: (text ++ x)) = isHexadecimal (c :: text) := by
  cases text with
  | cons d text =>
    unfold isHexadecimal
    split <;> split <;> simp_all
  | nil =>
    cases x with
    | nil => rfl
    | cons b x =>
      have hlower : b ≠ 'x' := ne_of_isBlank (hx b rfl) (by decide)
      have hupper : b ≠ 'X' := ne_of_isBlank (hx b rfl) (by decide)
      unfold isHexadecimal
      split <;> simp_all

theorem isPrefixOf_append {op : List Char} (hop : ∀ c ∈ op, Text.isBlank c = false)
    (text : List Char) : op.isPrefixOf (text ++ x) = op.isPrefixOf text := by
  induction op generalizing text with
  | nil => simp
  | cons a op ih =>
    obtain ⟨ha, hrest⟩ := List.forall_mem_cons.mp hop
    cases text with
    | cons c text => simp [List.isPrefixOf, ih hrest text]
    | nil =>
      cases x with
      | nil => rfl
      | cons b x =>
        have hne : a ≠ b := (ne_of_isBlank (hx b rfl) ha).symm
        simp [List.isPrefixOf, hne]

theorem punctuationLength?_append (c : Char) (text : List Char) :
    punctuationLength? (c :: (text ++ x)) = punctuationLength? (c :: text) := by
  have hthree : ∀ op ∈ threeCharOperators, op.all (!Text.isBlank ·) := by decide
  have htwo : ∀ op ∈ twoCharOperators, op.all (!Text.isBlank ·) := by decide
  have hany : ∀ ops : List (List Char), (∀ op ∈ ops, op.all (!Text.isBlank ·)) →
      ops.any (·.isPrefixOf (c :: text ++ x)) = ops.any (·.isPrefixOf (c :: text)) := by
    intro ops hops
    rw [Bool.eq_iff_iff]
    simp only [List.any_eq_true]
    refine exists_congr fun op => and_congr_right fun hop => ?_
    rw [isPrefixOf_append hx (by simpa using hops op hop)]
  unfold punctuationLength?
  rw [← List.cons_append, hany _ hthree, hany _ htwo]
  rfl

end Lexeme

theorem punctuationLength?_le {text : List Char} {n : Nat}
    (h : punctuationLength? text = some n) : n ≤ text.length := by
  have hthree : ∀ op ∈ threeCharOperators, op.length = 3 := by decide
  have htwo : ∀ op ∈ twoCharOperators, op.length = 2 := by decide
  have hany : ∀ (ops : List (List Char)) (k : Nat), (∀ op ∈ ops, op.length = k) →
      ops.any (·.isPrefixOf text) → k ≤ text.length := by
    intro ops k hops hfound
    obtain ⟨op, hop, hprefix⟩ := List.any_eq_true.mp hfound
    rw [← hops op hop]
    exact (List.isPrefixOf_iff_prefix.mp hprefix).length_le
  unfold punctuationLength? at h
  split at h
  · rename_i hfound
    cases h
    exact hany _ 3 hthree hfound
  split at h
  · rename_i hfound
    cases h
    exact hany _ 2 htwo hfound
  split at h
  · cases h
  split at h
  · cases h
    simp
  · cases h

/-- **A lexeme before a boundary**, directives aside. -/
theorem lexeme_append {x : List Char} (hx : Boundary x) {c : Char} (hc : c ≠ '#')
    (lineStart : Bool) (rest : List Char) :
    lexeme lineStart c (rest ++ x) =
      (lexeme lineStart c rest).map fun found => (found.1, found.2.1, found.2.2 ++ x) := by
  have hword := span_append hx (fun _ => not_isWordChar_of_isBlank) (c :: rest)
  have hnumber := spanNumber_boundary hx (isHexadecimal (c :: rest)) '\x00' (c :: rest)
  rw [List.cons_append] at hword hnumber
  unfold lexeme
  simp only [hc, ↓reduceIte, startsNumber_append hx, isHexadecimal_append hx, hword, hnumber,
    punctuationLength?_append hx]
  split
  · rfl
  split
  · rfl
  cases hn : punctuationLength? (c :: rest) with
  | none => rfl
  | some n =>
    have hle := punctuationLength?_le hn
    have hsplit : (c :: (rest ++ x)).splitAt n =
        ((c :: rest).take n, (c :: rest).drop n ++ x) := by
      rw [← List.cons_append, List.splitAt_eq, List.take_append_of_le_length hle,
        List.drop_append_of_le_length hle]
    simp only [hsplit, List.splitAt_eq]
    rfl

/-! ## Directives -/

/-- Whether a line goes on after a text: it ends in a backslash, carriage returns
behind that aside. -/
def goesOn (continued : Bool) (text : List Char) : Bool :=
  text.foldl (fun continued c => c == '\\' || (c == '\r' && continued)) continued

theorem spanLogicalLine_through (continued : Bool) (text : List Char) :
    (∃ line rest, ∀ x, spanLogicalLine continued (text ++ x) = (line, rest ++ x)) ∨
      ∀ x, spanLogicalLine continued (text ++ x) =
        (text ++ (spanLogicalLine (goesOn continued text) x).1,
          (spanLogicalLine (goesOn continued text) x).2) := by
  induction text generalizing continued with
  | nil => exact .inr fun _ => rfl
  | cons c text ih =>
    by_cases hstop : c = '\n' && !continued
    · refine .inl ⟨[], c :: text, ?_⟩
      intro x
      simp [spanLogicalLine, hstop]
    · rcases ih (c == '\\' || (c == '\r' && continued)) with ⟨line, rest, hline⟩ | hthrough
      · refine .inl ⟨c :: line, rest, ?_⟩
        intro x
        simp [spanLogicalLine, hstop, hline x]
      · refine .inr ?_
        intro x
        simp [spanLogicalLine, hstop, hthrough x, goesOn]

/-- A mark that is neither a backslash nor a carriage return starts anew. -/
theorem goesOn_of_suffix {text rest : List Char} {c : Char} (h : c :: rest <:+ text)
    (hbackslash : c ≠ '\\') (hreturn : c ≠ '\r') (continued : Bool) :
    goesOn continued text = goesOn false (c :: rest) := by
  obtain ⟨front, rfl⟩ := h
  have hback : (c == '\\') = false := beq_eq_false_iff_ne.mpr hbackslash
  have hret : (c == '\r') = false := beq_eq_false_iff_ne.mpr hreturn
  simp only [goesOn, List.foldl_append, List.foldl_cons, hback, hret, Bool.false_and, Bool.or_self]

theorem goesOn_of_last {text : List Char} {c : Char} (h : [c] <:+ text) (hbackslash : c ≠ '\\')
    (hreturn : c ≠ '\r') : goesOn false text = false := by
  rw [goesOn_of_suffix h hbackslash hreturn]
  simp [goesOn, hbackslash]

/-- A newline ends a directive that does not go on. -/
theorem spanLogicalLine_newline {text : List Char} (h : goesOn false text = false)
    (more : List Char) :
    spanLogicalLine false (text ++ '\n' :: more) =
      ((spanLogicalLine false text).1, (spanLogicalLine false text).2 ++ '\n' :: more) := by
  rcases spanLogicalLine_through false text with ⟨line, rest, hline⟩ | hthrough
  · have hself := hline []
    simp only [List.append_nil] at hself
    rw [hline, hself]
  · have hself := hthrough []
    simp only [List.append_nil, spanLogicalLine] at hself
    rw [hthrough, h, hself]
    simp [spanLogicalLine]

/-- White space behind a directive is left, or belongs to it up to the next newline. -/
theorem spanLogicalLine_blank {text w : List Char} (h : goesOn false text = false)
    (hw : ∀ c ∈ w, Text.isBlank c) :
    (spanLogicalLine false (text ++ w) =
        ((spanLogicalLine false text).1, (spanLogicalLine false text).2 ++ w)) ∨
      spanLogicalLine false text = (text, []) ∧
        ∀ c ∈ (spanLogicalLine false (text ++ w)).2, Text.isBlank c := by
  rcases spanLogicalLine_through false text with ⟨line, rest, hline⟩ | hthrough
  · have hself := hline []
    simp only [List.append_nil] at hself
    exact .inl (by rw [hline, hself])
  · have hself := hthrough []
    simp only [List.append_nil, spanLogicalLine] at hself
    refine .inr ⟨hself, ?_⟩
    intro c hc
    rw [hthrough, h] at hc
    apply hw
    rw [← spanLogicalLine_append false w]
    exact List.mem_append_right _ hc

end ShaderGraph.Glsl
