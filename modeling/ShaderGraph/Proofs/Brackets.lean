import Mathlib.Tactic.Tauto
import ShaderGraph.Glsl.Extraction
import ShaderGraph.Proofs.Computation

/-!
Nested words, and the functions that skip them. `Nested free` says that brackets
match and that every token outside all brackets is `free`. A function that has
some brackets open reads a word that closes them, innermost first; `Closing P`
says this of the tokens ahead, with `P` for what follows the last closing
bracket. One token changes the open brackets as `bracketStep` does
(`closing_cons`), and each function is settled by that lemma and induction.
-/

namespace ShaderGraph.Glsl

namespace Token

/-- Whether `c` closes the bracket that `o` opens. -/
def closedBy (o c : Token) : Bool := c.isPunctuation o.closer

theorem not_closes_of_opens {t : Token} (h : t.opens) : ¬ t.closes := by
  simp only [opens, closes, isPunctuation, Bool.or_eq_true, Bool.and_eq_true, beq_iff_eq] at h ⊢
  rcases h with (⟨_, h⟩ | ⟨_, h⟩) | ⟨_, h⟩ <;> simp [h]

theorem not_isPunctuation_of_opens {t : Token} {text : String} (h : t.opens)
    (ht : text ≠ "\x7b" ∧ text ≠ "(" ∧ text ≠ "[") : ¬ t.isPunctuation text := by
  simp only [opens, isPunctuation, Bool.or_eq_true, Bool.and_eq_true, beq_iff_eq] at h ⊢
  rintro ⟨_, rfl⟩
  tauto

theorem closedBy_iff {o c : Token} : o.closedBy c ↔ c.closes ∧ c.text = o.closer := by
  have hcloser : o.closer = "\x7d" ∨ o.closer = ")" ∨ o.closer = "]" := by
    unfold closer
    split
    · simp
    · split <;> simp
  simp only [closedBy, closes, isPunctuation, Bool.or_eq_true, Bool.and_eq_true, beq_iff_eq]
  constructor
  · rintro ⟨hk, ht⟩
    rw [ht]
    rcases hcloser with h | h | h <;> simp [hk, h]
  · rintro ⟨(⟨hk, _⟩ | ⟨hk, _⟩) | ⟨hk, _⟩, ht⟩ <;> exact ⟨hk, ht⟩

end Token

/-- Words in which every bracket is closed by its own kind and in which the
tokens outside all brackets are `free`. -/
inductive Nested : (Token → Bool) → List Token → Prop
  | nil {free : Token → Bool} : Nested free []
  | plain {free : Token → Bool} {t : Token} {w : List Token} :
      ¬ t.opens → ¬ t.closes → free t → Nested free w → Nested free (t :: w)
  | group {free : Token → Bool} {o c : Token} {u w : List Token} :
      o.opens → o.closedBy c → Nested (fun _ => true) u → Nested free w →
        Nested free (o :: (u ++ c :: w))

/-- The tokens ahead close the open brackets, and then `P` holds. -/
def Closing (P : List Token → Prop) : List Token → List Token → Prop
  | [], tokens => P tokens
  | top :: outer, tokens => ∃ u c rest, tokens = u ++ c :: rest ∧
      Nested (fun _ => true) u ∧ top.closedBy c ∧ Closing P outer rest

variable {P : List Token → Prop} {top t : Token} {outer brackets tokens : List Token}

theorem closing_nil : Closing P [] tokens ↔ P tokens := Iff.rfl

theorem not_closing_nil : ¬ Closing P (top :: outer) [] := by
  rintro ⟨u, c, rest, h, _⟩
  simp at h

theorem closing_opens (h : t.opens) :
    Closing P (top :: outer) (t :: tokens) ↔ Closing P (t :: top :: outer) tokens := by
  constructor
  · rintro ⟨u, c, rest, he, hu, hc, hrest⟩
    cases hu with
    | nil =>
      cases he
      exact absurd (Token.closedBy_iff.mp hc).1 (Token.not_closes_of_opens h)
    | plain ho _ _ _ =>
      cases he
      exact absurd h ho
    | @group _ _ c' inner later _ hc' hinner hlater =>
      cases he
      exact ⟨inner, c', later ++ c :: rest, by simp, hinner, hc', later, c, rest, rfl, hlater, hc,
        hrest⟩
  · rintro ⟨inner, c', later', rfl, hinner, hc', later, c, rest, rfl, hlater, hc, hrest⟩
    exact ⟨t :: (inner ++ c' :: later), c, rest, by simp, .group h hc' hinner hlater, hc, hrest⟩

theorem closing_closes (h : t.closes) :
    Closing P (top :: outer) (t :: tokens) ↔ top.closedBy t ∧ Closing P outer tokens := by
  constructor
  · rintro ⟨u, c, rest, he, hu, hc, hrest⟩
    cases hu with
    | nil =>
      cases he
      exact ⟨hc, hrest⟩
    | plain _ ho _ _ =>
      cases he
      exact absurd h ho
    | group ho _ _ _ =>
      cases he
      exact absurd h (Token.not_closes_of_opens ho)
  · rintro ⟨hc, hrest⟩
    exact ⟨[], t, tokens, rfl, .nil, hc, hrest⟩

theorem closing_plain (ho : ¬ t.opens) (hc : ¬ t.closes) :
    Closing P (top :: outer) (t :: tokens) ↔ Closing P (top :: outer) tokens := by
  constructor
  · rintro ⟨u, c, rest, he, hu, hclosed, hrest⟩
    cases hu with
    | nil =>
      cases he
      exact absurd (Token.closedBy_iff.mp hclosed).1 hc
    | plain _ _ _ hw =>
      cases he
      exact ⟨_, c, rest, rfl, hw, hclosed, hrest⟩
    | group hopens _ _ _ =>
      cases he
      exact absurd hopens ho
  · rintro ⟨u, c, rest, rfl, hu, hclosed, hrest⟩
    exact ⟨t :: u, c, rest, rfl, .plain ho hc rfl hu, hclosed, hrest⟩

/-! ## One token -/

theorem bracketStep_eq_ok :
    bracketStep top outer t = .ok brackets ↔
      (t.opens ∧ brackets = t :: top :: outer) ∨ (top.closedBy t ∧ brackets = outer) ∨
        (¬ t.opens ∧ ¬ t.closes ∧ brackets = top :: outer) := by
  unfold bracketStep
  rw [Token.closedBy_iff]
  by_cases ho : t.opens
  · simp [ho, Token.not_closes_of_opens ho, eq_comm]
  by_cases hc : t.closes
  · by_cases ht : t.text = top.closer <;> simp [ho, hc, ht, eq_comm]
  · simp [ho, hc, eq_comm]

theorem bracketStep_eq_error {error : SyntaxError} :
    bracketStep top outer t = .error error ↔
      t.closes ∧ ¬ top.closedBy t ∧ error = t.unexpected (quoted top.closer) := by
  unfold bracketStep
  rw [Token.closedBy_iff]
  by_cases ho : t.opens
  · simp [ho, Token.not_closes_of_opens ho]
  by_cases hc : t.closes
  · by_cases ht : t.text = top.closer <;> simp [ho, hc, ht, eq_comm]
  · simp [ho, hc]

/-- **One token inside brackets.** -/
theorem closing_cons :
    Closing P (top :: outer) (t :: tokens) ↔
      ∃ brackets, bracketStep top outer t = .ok brackets ∧ Closing P brackets tokens := by
  unfold bracketStep
  by_cases ho : t.opens
  · simp [ho, closing_opens ho]
  by_cases hc : t.closes
  · rw [closing_closes hc, Token.closedBy_iff]
    by_cases ht : t.text = top.closer <;> simp [ho, hc, ht]
  · simp [ho, hc, closing_plain ho hc]

/-! ## The functions -/

theorem skipBalanced_eq_ok {ending : Ending} {brackets tokens rest : List Token} :
    skipBalanced ending brackets tokens = .ok rest ↔ Closing (· = rest) brackets tokens := by
  induction tokens generalizing brackets with
  | nil =>
    cases brackets with
    | nil => simp [skipBalanced, Closing]
    | cons top outer => simp [skipBalanced, not_closing_nil]
  | cons t tokens ih =>
    cases brackets with
    | nil => simp [skipBalanced, Closing]
    | cons top outer => simp only [skipBalanced, bind_eq_ok, closing_cons, ih]

/-- A word without a stop outside brackets, and then a stop. -/
def RunsTo (stops free : Token → Bool) (rest tokens : List Token) : Prop :=
  ∃ w, tokens = w ++ rest ∧ Nested free w ∧ ∃ t later, rest = t :: later ∧ stops t

section Until

variable {stops bars free : Token → Bool} {rest : List Token}

theorem not_runsTo_nil : ¬ RunsTo stops free rest [] := by
  rintro ⟨w, h, _, t, later, rfl, _⟩
  simp at h

theorem runsTo_opens (h : t.opens) (hstops : ¬ stops t) :
    RunsTo stops free rest (t :: tokens) ↔ Closing (RunsTo stops free rest) [t] tokens := by
  constructor
  · rintro ⟨w, he, hw, hrest⟩
    cases hw with
    | nil =>
      obtain ⟨s, later, rfl, hs⟩ := hrest
      cases he
      exact absurd hs hstops
    | plain ho _ _ _ =>
      cases he
      exact absurd h ho
    | @group _ _ c u w _ hc hu hw =>
      cases he
      exact ⟨u, c, w ++ rest, by simp, hu, hc, w, rfl, hw, hrest⟩
  · rintro ⟨u, c, later, rfl, hu, hc, w, rfl, hw, hrest⟩
    exact ⟨t :: (u ++ c :: w), by simp, .group h hc hu hw, hrest⟩

theorem runsTo_plain (ho : ¬ t.opens) (hstops : ¬ stops t) :
    RunsTo stops free rest (t :: tokens) ↔
      (¬ t.closes ∧ free t) ∧ RunsTo stops free rest tokens := by
  constructor
  · rintro ⟨w, he, hw, hrest⟩
    cases hw with
    | nil =>
      obtain ⟨s, later, rfl, hs⟩ := hrest
      cases he
      exact absurd hs hstops
    | plain _ hc hf hw =>
      cases he
      exact ⟨⟨hc, hf⟩, _, rfl, hw, hrest⟩
    | group hopens _ _ _ =>
      cases he
      exact absurd hopens ho
  · rintro ⟨⟨hc, hf⟩, w, rfl, hw, hrest⟩
    exact ⟨t :: w, rfl, .plain ho hc hf hw, hrest⟩

theorem runsTo_stops (ho : ¬ t.opens) (hfree : ¬ t.closes → ¬ free t) (h : stops t) :
    RunsTo stops free rest (t :: tokens) ↔ t :: tokens = rest := by
  constructor
  · rintro ⟨w, he, hw, hrest⟩
    cases hw with
    | nil => exact he
    | plain _ hc hf _ =>
      cases he
      exact absurd hf (hfree hc)
    | group hopens _ _ _ =>
      cases he
      exact absurd hopens ho
  · rintro rfl
    exact ⟨[], rfl, .nil, t, tokens, rfl, h⟩

/-- What may stand outside brackets is what neither stops nor bars. -/
theorem skipUntil_eq_ok {ending : Ending} {expected : String} {brackets : List Token}
    (hopens : ∀ t : Token, t.opens → ¬ stops t ∧ ¬ bars t)
    (hfree : ∀ t : Token, ¬ t.opens → (¬ t.closes ∧ free t ↔ ¬ stops t ∧ ¬ bars t)) :
    skipUntil ending stops bars expected brackets tokens = .ok rest ↔
      Closing (RunsTo stops free rest) brackets tokens := by
  induction tokens generalizing brackets with
  | nil =>
    cases brackets with
    | nil => simp [skipUntil, Closing, not_runsTo_nil]
    | cons top outer => simp [skipUntil, not_closing_nil]
  | cons t tokens ih =>
    cases brackets with
    | nil =>
      rw [skipUntil, Closing]
      by_cases ho : t.opens
      · obtain ⟨hs, hb⟩ := hopens t ho
        simp [hs, hb, ho, ih, runsTo_opens ho hs]
      have hfree := hfree t ho
      -- a stop is not free, so the run before it ends here and cannot go on past it
      by_cases hs : stops t
      · rw [runsTo_stops ho (fun hc hf => (hfree.mp ⟨hc, hf⟩).1 hs) hs]
        simp [hs]
      rw [runsTo_plain ho hs, hfree]
      by_cases hb : bars t
      · simp [hs, hb]
      · simp [hs, hb, ho, ih, Closing]
    | cons top outer => simp only [skipUntil, bind_eq_ok, closing_cons, ih]

end Until

/-- A run of tokens up to the first semicolon outside brackets. -/
def Statement (w : List Token) : Prop :=
  ∃ u s, w = u ++ [s] ∧ Nested (fun t => !t.isPunctuation ";") u ∧ s.isPunctuation ";"

theorem skipStatement_eq_ok {ending : Ending} {rest : List Token} :
    skipStatement ending tokens = .ok rest ↔ ∃ w, tokens = w ++ rest ∧ Statement w := by
  have huntil : ∀ left : List Token,
      skipUntil ending (·.isPunctuation ";") Token.closes "`;`" [] tokens = .ok left ↔
        RunsTo (·.isPunctuation ";") (fun t => !t.isPunctuation ";") left tokens := by
    intro left
    refine skipUntil_eq_ok ?_ ?_
    · intro t ho
      exact ⟨Token.not_isPunctuation_of_opens ho (by decide), Token.not_closes_of_opens ho⟩
    · intro t _
      simp [and_comm]
  rw [skipStatement, map_eq_ok]
  constructor
  · rintro ⟨left, hleft, rfl⟩
    obtain ⟨u, rfl, hu, s, later, rfl, hs⟩ := (huntil left).mp hleft
    exact ⟨u ++ [s], by simp, u, s, rfl, hu, hs⟩
  · rintro ⟨w, rfl, u, s, rfl, hu, hs⟩
    exact ⟨s :: rest, (huntil _).mpr ⟨u, by simp, hu, s, rest, rfl, hs⟩, rfl⟩

theorem skipDefault_eq_ok {ending : Ending} {rest : List Token} :
    skipDefault ending tokens = .ok rest ↔
      RunsTo (fun t => t.isPunctuation "," || t.isPunctuation ")")
        (fun t => !t.isPunctuation "," && !t.isPunctuation ";") rest tokens := by
  have hother : ∀ t : Token, t.opens → ∀ text ∈ [",", ")", "]", "\x7d", ";"],
      t.isPunctuation text = false := by
    intro t ho text ht
    rw [← Bool.not_eq_true]
    apply Token.not_isPunctuation_of_opens ho
    revert text
    decide
  refine skipUntil_eq_ok ?_ ?_
  · intro t ho
    simp [hother t ho]
  · intro t _
    simp only [Token.closes, Bool.or_eq_true, not_or, Bool.and_eq_true, Bool.not_eq_true',
      Bool.not_eq_true]
    tauto

end ShaderGraph.Glsl
