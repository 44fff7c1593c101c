import ShaderGraph.Proofs.Acceptance
import ShaderGraph.Proofs.Placement

/-!
What errors point at. Each function that reads tokens fails for one of five reasons, which
`Cause` lists: the lexer failed, the tokens ended, a token could not stand where it was found,
a bracket was open at the end, or a parameter had no name. A computation is `Explained` if it
fails for such a reason only; there is one lemma for each function, and it asks where the
tokens come from, not what they are. With the places of tokens in the text this gives the
place that an error names and what stands there (`definitions_error`).
-/

namespace ShaderGraph.Glsl

/-! ## Causes -/

/-- Where the name of a parameter was expected, `t` was found: it comes after the type of a
parameter, which begins behind a parenthesis or a comma. -/
def LacksName (all : List Token) (type : String) (t : Token) : Prop :=
  ∃ start q word s later, start :: (q ++ word :: (s ++ t :: later)) <:+ all ∧
    (start.isPunctuation "(" || start.isPunctuation ",") ∧ Qualifiers q ∧ word.namesType ∧
    Suffixes s ∧ type = word.text ++ spelling s ∧ ¬ t.isIdentifier ∧ ¬ t.isPunctuation "["

/-- How an error comes about, given all tokens of a text and how it ends. -/
inductive Cause (ending : Ending) (all : List Token) : SyntaxError → Prop
  | lexer {e : SyntaxError} : ending.error = some e → Cause ending all e
  | missing {expected : String} : ending.error = none →
      Cause ending all ⟨ending.stop, .unexpectedEnd expected⟩
  | unexpected {t : Token} {expected : String} : t ∈ all → Cause ending all (t.unexpected expected)
  | unclosed {t : Token} : t ∈ all → t.opens → Cause ending all t.unclosed
  | unnamed {t : Token} {type : String} : LacksName all type t →
      Cause ending all ⟨t.location, .unnamedParameter type⟩

/-- A computation that fails for such a cause, if it fails. -/
def Explained {α : Type} (ending : Ending) (all : List Token) (x : Except SyntaxError α) : Prop :=
  ∀ e, x = .error e → Cause ending all e

variable {ending : Ending} {all tokens rest brackets : List Token} {t : Token} {expected : String}

namespace Explained

variable {α β : Type}

theorem ok (a : α) : Explained ending all (.ok a) := by
  rintro e ⟨⟩

theorem error {e : SyntaxError} (h : Cause ending all e) :
    Explained ending all (.error e : Except SyntaxError α) := by
  rintro _ ⟨⟩
  exact h

/-- **One step after another.** -/
theorem bind {x : Except SyntaxError α} {f : α → Except SyntaxError β}
    (hx : Explained ending all x) (hf : ∀ a, x = .ok a → Explained ending all (f a)) :
    Explained ending all (x >>= f) := by
  intro e h
  rcases bind_eq_error.mp h with h | ⟨a, ha, h⟩
  · exact hx e h
  · exact hf a ha e h

theorem missing :
    Explained ending all (.error (ending.missing expected) : Except SyntaxError α) := by
  refine error ?_
  unfold Ending.missing
  cases herror : ending.error with
  | none => exact .missing herror
  | some e => exact .lexer herror

theorem unexpected (ht : t ∈ all) :
    Explained ending all (.error (t.unexpected expected) : Except SyntaxError α) :=
  error (.unexpected ht)

theorem check : Explained ending all ending.check := by
  unfold Ending.check
  cases herror : ending.error with
  | none => exact ok ()
  | some e => exact error (.lexer herror)

end Explained

/-! ## Brackets -/

/-- Brackets that stand in a text. -/
def OpenIn (all brackets : List Token) : Prop := ∀ b ∈ brackets, b ∈ all ∧ b.opens

theorem OpenIn.nil : OpenIn all [] := by simp [OpenIn]

theorem OpenIn.one (ht : t ∈ all) (ho : t.opens) : OpenIn all [t] := by
  simpa [OpenIn] using ⟨ht, ho⟩

theorem OpenIn.step {top : Token} {outer next : List Token} (h : OpenIn all (top :: outer))
    (ht : t ∈ all) (hstep : bracketStep top outer t = .ok next) : OpenIn all next := by
  rcases bracketStep_eq_ok.mp hstep with ⟨ho, rfl⟩ | ⟨_, rfl⟩ | ⟨_, _, rfl⟩
  · exact List.forall_mem_cons.mpr ⟨⟨ht, ho⟩, h⟩
  · exact (List.forall_mem_cons.mp h).2
  · exact h

/-- The innermost bracket is open at the end. -/
theorem OpenIn.unclosed {α : Type} {top : Token} {outer : List Token}
    (h : OpenIn all (top :: outer)) :
    Explained ending all (.error (ending.unclosed top) : Except SyntaxError α) := by
  obtain ⟨htop, ho⟩ := h top (List.mem_cons_self ..)
  refine .error ?_
  unfold Ending.unclosed
  cases herror : ending.error with
  | none => exact .unclosed htop ho
  | some e => exact .lexer herror

theorem bracketStep_explained {top : Token} {outer : List Token} (ht : t ∈ all) :
    Explained ending all (bracketStep top outer t) := by
  intro e he
  obtain ⟨_, _, rfl⟩ := bracketStep_eq_error.mp he
  exact .unexpected ht

theorem skipBalanced_explained (hopen : OpenIn all brackets) (htokens : tokens ⊆ all) :
    Explained ending all (skipBalanced ending brackets tokens) := by
  induction tokens generalizing brackets with
  | nil =>
    cases brackets with
    | nil => exact .ok _
    | cons top outer => exact hopen.unclosed
  | cons t tokens ih =>
    cases brackets with
    | nil => exact .ok _
    | cons top outer =>
      obtain ⟨ht, hrest⟩ := List.cons_subset.mp htokens
      exact .bind (bracketStep_explained ht) fun next hstep => ih (hopen.step ht hstep) hrest

theorem skipUntil_explained {stops bars : Token → Bool} (hopen : OpenIn all brackets)
    (htokens : tokens ⊆ all) :
    Explained ending all (skipUntil ending stops bars expected brackets tokens) := by
  induction tokens generalizing brackets with
  | nil =>
    cases brackets with
    | nil => exact .missing
    | cons top outer => exact hopen.unclosed
  | cons t tokens ih =>
    obtain ⟨ht, hrest⟩ := List.cons_subset.mp htokens
    cases brackets with
    | nil =>
      rw [skipUntil]
      split_ifs with _ _ ho
      · exact .ok _
      · exact .unexpected ht
      · exact ih (.one ht ho) hrest
      · exact ih .nil hrest
    | cons top outer =>
      exact .bind (bracketStep_explained ht) fun next hstep => ih (hopen.step ht hstep) hrest

theorem skipStatement_explained (htokens : tokens ⊆ all) :
    Explained ending all (skipStatement ending tokens) :=
  .bind (skipUntil_explained .nil htokens) fun _ _ => .ok _

/-! ## Headers -/

theorem arraySuffix_explained {inside : Bool} {type : String} (htokens : tokens ⊆ all) :
    Explained ending all (arraySuffix ending inside type tokens) := by
  induction tokens generalizing inside type with
  | nil =>
    rw [arraySuffix]
    split_ifs
    · exact .missing
    · exact .bind .check fun _ _ => .ok _
  | cons t tokens ih =>
    obtain ⟨ht, hrest⟩ := List.cons_subset.mp htokens
    rw [arraySuffix]
    split_ifs
    · exact ih hrest
    · exact .unexpected ht
    · exact ih hrest
    · exact ih hrest
    · exact .ok _

theorem skipQualifiers_explained (hopen : OpenIn all brackets) (htokens : tokens ⊆ all) :
    Explained ending all (skipQualifiers ending expected brackets tokens) := by
  -- a layout takes two tokens at once, so the induction follows the function
  fun_induction skipQualifiers ending expected brackets tokens with
  | case1 => exact .missing
  | case2 => exact hopen.unclosed
  | case3 x tokens _ ih => exact ih .nil (List.cons_subset.mp htokens).2
  | case4 => exact .missing
  | case5 x _ _ b tokens hb ih =>
    obtain ⟨_, hrest⟩ := List.cons_subset.mp htokens
    obtain ⟨hmem, hrest⟩ := List.cons_subset.mp hrest
    exact ih (.one hmem (by simp [Token.opens, hb])) hrest
  | case6 x _ _ b tokens _ =>
    obtain ⟨_, hrest⟩ := List.cons_subset.mp htokens
    exact .unexpected (List.cons_subset.mp hrest).1
  | case7 => exact .ok _
  | case8 top outer x tokens ih =>
    obtain ⟨ht, hrest⟩ := List.cons_subset.mp htokens
    exact .bind (bracketStep_explained ht) fun next hstep => ih next (hopen.step ht hstep) hrest

theorem typeWord_explained (htokens : tokens ⊆ all) :
    Explained ending all (typeWord ending expected tokens) := by
  refine .bind (skipQualifiers_explained .nil htokens) ?_
  rintro ⟨x, later⟩ hskip
  obtain ⟨q, rfl, _⟩ := skipQualifiers_eq_ok.mp hskip
  simp only
  split_ifs
  · exact .ok _
  · exact .unexpected (htokens (by simp))

theorem skipDefault?_suffix (h : skipDefault? ending tokens = .ok rest) : rest <:+ tokens := by
  cases tokens with
  | nil =>
    obtain ⟨_, _, h⟩ := bind_eq_ok.mp h
    cases h
    exact List.suffix_refl _
  | cons t tokens =>
    rw [skipDefault?] at h
    split_ifs at h
    · obtain ⟨w, rfl, _⟩ := skipDefault_eq_ok.mp h
      exact ⟨t :: w, rfl⟩
    · cases h
      exact List.suffix_refl _

/-- What a parameter leaves are the last tokens. -/
theorem parameter_suffix {socket : Socket} (h : parameter ending tokens = .ok (socket, rest)) :
    rest <:+ tokens := by
  obtain ⟨word, _, _, name, _, _, left, hword, htype, _, htype', hdefault, _⟩ :=
    parameter_steps.mp h
  obtain ⟨q, rfl, _⟩ := typeWord_eq_ok.mp hword
  obtain ⟨s, rfl, _⟩ := arraySuffix_eq_ok.mp htype
  obtain ⟨s', rfl, _⟩ := arraySuffix_eq_ok.mp htype'
  have hleft : left <:+ q ++ word :: (s ++ name :: (s' ++ left)) :=
    ⟨q ++ word :: (s ++ name :: s'), by simp⟩
  exact (skipDefault?_suffix hdefault).trans hleft

theorem parameter_explained {start : Token}
    (hstart : start.isPunctuation "(" || start.isPunctuation ",")
    (htokens : start :: tokens <:+ all) : Explained ending all (parameter ending tokens) := by
  have hall : tokens ⊆ all := ((List.suffix_cons start tokens).trans htokens).subset
  refine .bind (typeWord_explained hall) ?_
  rintro ⟨word, afterWord⟩ hword
  obtain ⟨q, rfl, hq, hnames⟩ := typeWord_eq_ok.mp hword
  refine .bind (arraySuffix_explained fun t ht => hall (by simp [ht])) ?_
  rintro ⟨type, _ | ⟨name, afterName⟩⟩ htype
  · exact .missing
  obtain ⟨s, rfl, hs, rfl, hafter⟩ := arraySuffix_eq_ok.mp htype
  simp only
  split_ifs with hname
  · exact .error (.unnamed ⟨start, q, word, s, afterName, htokens, hstart, hq, hnames, hs, rfl,
      by simpa using hname, hafter⟩)
  refine .bind (arraySuffix_explained fun t ht => hall (by simp [ht])) ?_
  rintro ⟨type', _ | ⟨t, left⟩⟩ htype'
  · exact .bind .check fun _ _ => .ok _
  obtain ⟨s', rfl, _⟩ := arraySuffix_eq_ok.mp htype'
  simp only
  split_ifs
  · exact .bind (skipUntil_explained .nil fun t ht => hall (by simp [ht])) fun _ _ => .ok _
  · exact .ok _

/-- There is always a step left for the next parameter, since a comma stands before it. -/
theorem parameterList_explained {n : Nat} {start : Token} (hn : tokens.length < n)
    (hstart : start.isPunctuation "(" || start.isPunctuation ",")
    (htokens : start :: tokens <:+ all) :
    Explained ending all (parameterList ending n tokens) := by
  induction n generalizing start tokens with
  | zero => cases hn
  | succ n ih =>
    refine .bind (parameter_explained hstart htokens) ?_
    rintro ⟨socket, _ | ⟨t, left⟩⟩ hone
    · exact .missing
    have hleft : t :: left <:+ tokens := parameter_suffix hone
    have hlater : t :: left <:+ all := hleft.trans ((List.suffix_cons start tokens).trans htokens)
    have hlength : left.length < n := by
      have hle := hleft.length_le
      rw [List.length_cons] at hle
      omega
    simp only
    split_ifs with _ hcomma
    · exact .ok _
    · exact .bind (ih hlength (by simp [hcomma]) hlater) fun _ _ => .ok _
    · exact .unexpected (hlater.subset (List.mem_cons_self ..))

theorem parameters_explained {start : Token} (hstart : start.isPunctuation "(")
    (htokens : start :: tokens <:+ all) : Explained ending all (parameters ending tokens) := by
  have hseveral : Explained ending all (parameterList ending (tokens.length + 1) tokens) :=
    parameterList_explained (Nat.lt_succ_self _) (by simp [hstart]) htokens
  unfold parameters
  rcases tokens with _ | ⟨t, _ | ⟨next, tokens⟩⟩
  · exact hseveral
  · simp only
    split_ifs
    · exact .ok _
    · exact hseveral
  · simp only
    split_ifs
    · exact .ok _
    · exact .ok _
    · exact hseveral

theorem headerEnd_explained (htokens : tokens ⊆ all) :
    Explained ending all (headerEnd ending tokens) := by
  rcases tokens with _ | ⟨t, tokens⟩
  · exact .missing
  obtain ⟨ht, hrest⟩ := List.cons_subset.mp htokens
  rw [headerEnd]
  split_ifs with _ hbrace
  · exact .ok _
  · exact .bind (skipBalanced_explained (.one ht (by simp [Token.opens, hbrace])) hrest)
      fun _ _ => .ok _
  · exact .unexpected ht

/-! ## Items -/

theorem declarator_explained {word : Token} (htokens : tokens <:+ all) :
    Explained ending all (declarator ending word tokens) := by
  refine .bind (arraySuffix_explained htokens.subset) ?_
  rintro ⟨type, left⟩ htype
  obtain ⟨s, rfl, _⟩ := arraySuffix_eq_ok.mp htype
  have hleft : left <:+ all := (List.suffix_append s left).trans htokens
  rcases left with _ | ⟨name, left⟩
  · exact .missing
  simp only
  split_ifs
  · exact .unexpected (hleft.subset (List.mem_cons_self ..))
  rcases left with _ | ⟨t, left⟩
  · exact .missing
  have hlater : t :: left <:+ all := (List.suffix_cons name _).trans hleft
  simp only
  split_ifs with hparen
  · refine .bind (parameters_explained hparen hlater) ?_
    rintro ⟨sockets, afterList⟩ hlist
    obtain ⟨w, c, rfl, _⟩ := parameters_eq_ok.mp hlist
    exact .bind (headerEnd_explained fun x hx => hlater.subset (by simp [hx])) fun _ _ => .ok _
  · exact .bind (skipStatement_explained hlater.subset) fun _ _ => .ok _

theorem afterType_explained {word : Token} (htokens : tokens <:+ all) :
    Explained ending all (afterType ending word tokens) := by
  rcases tokens with _ | ⟨t, tokens⟩
  · exact .missing
  obtain ⟨ht, hrest⟩ := List.cons_subset.mp htokens.subset
  rw [afterType]
  split_ifs with hbrace
  · have hopens : t.opens := by simp [Token.opens, hbrace]
    refine .bind (skipBalanced_explained (.one ht hopens) hrest) ?_
    intro left hskip
    obtain ⟨u, c, _, rfl, _, _, rfl⟩ := skipBalanced_eq_ok.mp hskip
    exact .bind (skipStatement_explained fun x hx => hrest (by simp [hx])) fun _ _ => .ok _
  · exact declarator_explained htokens

theorem item_explained {first : Token} (htokens : first :: tokens <:+ all) :
    Explained ending all (item ending first tokens) := by
  by_cases hprecision : first.isWord "precision"
  · rw [item_precision hprecision]
    exact .bind (skipStatement_explained (List.cons_subset.mp htokens.subset).2) fun _ _ => .ok _
  by_cases hidentifier : first.isIdentifier
  · rw [item_declaration hidentifier hprecision]
    refine .bind (typeWord_explained htokens.subset) ?_
    rintro ⟨word, left⟩ hword
    obtain ⟨q, he, _⟩ := typeWord_eq_ok.mp hword
    obtain ⟨n, hn, _⟩ := structureName_split word left
    refine afterType_explained (.trans ⟨q ++ word :: n, ?_⟩ htokens)
    rw [he, List.append_assoc, List.cons_append, ← hn]
  · unfold item
    simp only [hidentifier, Bool.not_false, ↓reduceIte]
    split_ifs
    · exact .ok _
    · exact .unexpected (htokens.subset (List.mem_cons_self ..))

theorem extractItems_nil_explained {n : Nat} :
    ∀ x ∈ extractItems ending n [], Explained ending all x := by
  intro x hx
  rw [extractItems] at hx
  cases herror : ending.error with
  | none => simp [herror] at hx
  | some e =>
    obtain rfl : x = .error e := by simpa [herror] using hx
    exact .error (.lexer herror)

/-- **All items**: whatever error is among the results has a cause. -/
theorem extractItems_explained {n : Nat} (htokens : tokens <:+ all) :
    ∀ x ∈ extractItems ending n tokens, Explained ending all x := by
  induction n generalizing tokens with
  | zero =>
    cases tokens with
    | nil => exact extractItems_nil_explained
    | cons first tokens => simp [extractItems]
  | succ n ih =>
    cases tokens with
    | nil => exact extractItems_nil_explained
    | cons first tokens =>
      have hitem : Explained ending all (item ending first tokens) := item_explained htokens
      rw [extractItems]
      cases hfound : item ending first tokens with
      | error e =>
        rw [hfound] at hitem
        simpa using .error (hitem e rfl)
      | ok found =>
        obtain ⟨found, left⟩ := found
        obtain ⟨w, he, _⟩ := item_eq_ok.mp hfound
        have hleft : left <:+ all := .trans ⟨w, he.symm⟩ htokens
        cases found with
        | none => exact ih hleft
        | some s =>
          simp only
          split_ifs
          · exact List.forall_mem_cons.mpr ⟨.ok _, ih hleft⟩
          · exact ih hleft

/-! ## Places -/

/-- The token is a part of the text that begins at the offset. -/
structure Token.StandsAt (source : List Char) (p : Nat) (t : Token) : Prop where
  lt : p < source.length
  location : t.location = .counted (source.take p)
  nonempty : t.text ≠ ""
  text : t.text.toList <+: source.drop p

section Accounts

variable {source : List Char} {start : Nat} {stream : TokenStream} {lexed : Lexed}

/-- Every token stands somewhere. -/
theorem Accounts.standsAt (h : Accounts source start stream lexed) :
    ∀ t ∈ lexed.tokens, ∃ p, t.StandsAt source p := by
  induction h with
  | @token _ offset stop _ _ t _ _ _ hlt hle _ htext hplace _ _ ih =>
    refine List.forall_mem_cons.mpr ⟨⟨offset, by omega, hplace, ?_, ?_⟩, ih⟩
    · intro hempty
      rw [hempty] at htext
      have hlength := congrArg List.length htext
      simp at hlength
      omega
    · rw [htext, List.extract_eq_take_drop]
      exact List.take_prefix _ _
  | finished _ _ _ _ => simp
  | failed _ _ _ _ _ _ _ => simp

/-- A text that is read to its end is read to its last place. -/
theorem Accounts.stop (h : Accounts source start stream lexed)
    (herror : lexed.ending.error = none) : lexed.ending.stop = .counted source := by
  induction h with
  | token _ _ _ _ _ _ _ _ _ ih => exact ih herror
  | finished _ _ _ hplace => exact hplace
  | failed _ _ _ _ _ _ _ => cases herror

/-- The lexer fails because of what stands at the place that it names. -/
theorem Accounts.halts (h : Accounts source start stream lexed) {e : SyntaxError}
    (herror : lexed.ending.error = some e) :
    ∃ p < source.length, e.location = .counted (source.take p) ∧
      ∃ started gap, Halts started gap (source.drop p) e.fault := by
  induction h with
  | token _ _ _ _ _ _ _ _ _ ih => exact ih herror
  | finished _ _ _ _ => cases herror
  | failed _ _ _ hlt _ hplace hhalts =>
    cases herror
    exact ⟨_, hlt, hplace, _, _, hhalts⟩

end Accounts

/-- What stands at an offset of a text at which an error is reported. -/
def PointsAt (source : String) (p : Nat) : SyntaxFault → Prop
  | .unterminatedComment =>
    ∃ body, source.toList.drop p = '/' :: '*' :: body ∧ ¬ ['*', '/'] <:+: body
  | .misplacedDirective => (source.toList.drop p).head? = some '#'
  | .unexpectedCharacter c => (source.toList.drop p).head? = some c
  | .unexpectedToken text _ => ∃ t ∈ (lex source).tokens, t.text = text ∧ t.StandsAt source.toList p
  | .unexpectedEnd _ => p = source.toList.length
  | .unclosed bracket =>
    ∃ t ∈ (lex source).tokens, t.text = bracket ∧ t.opens ∧ t.StandsAt source.toList p
  | .unnamedParameter type => ∃ t, LacksName (lex source).tokens type t ∧ t.StandsAt source.toList p

theorem pointsAt_of_halts {source : String} {p : Nat} {fault : SyntaxFault} {started : Prop}
    {gap : List Char} (h : Halts started gap (source.toList.drop p) fault) :
    PointsAt source p fault := by
  cases fault with
  | unterminatedComment => exact h
  | misplacedDirective => exact h.1
  | unexpectedCharacter c => exact h.1
  | unexpectedToken text expected => exact h.elim
  | unexpectedEnd expected => exact h.elim
  | unclosed bracket => exact h.elim
  | unnamedParameter type => exact h.elim

theorem LacksName.mem {type : String} (h : LacksName all type t) : t ∈ all := by
  obtain ⟨start, q, word, s, later, hsuffix, _⟩ := h
  exact hsuffix.subset (by simp)

/-- **An error points at its cause.** If the extraction fails, then the line and the column of
the error are those of an offset of the text, and what the error speaks of stands there: the
token, bracket or character that it quotes, a comment that is not closed, the directive, the
token in place of a name, or nothing more at the end of the text. -/
theorem definitions_error (source : String) (e : SyntaxError) (h : definitions source = .error e) :
    ∃ p ≤ source.toList.length, e.location = .counted (source.toList.take p) ∧
      PointsAt source p e.fault := by
  have hstart : Lexer.IsAt source.toList 0 { rest := source.toList } :=
    ⟨Nat.zero_le _, rfl, rfl, by simp⟩
  have haccounts : Accounts source.toList 0 (.of source) (lex source) := hstart.accounts
  have hcause : Cause (lex source).ending (lex source).tokens e :=
    extractItems_explained (List.suffix_refl _) _ (mem_of_mapM_id_eq_error h) e rfl
  cases hcause with
  | lexer herror =>
    obtain ⟨p, hlt, hplace, _, _, hhalts⟩ := haccounts.halts herror
    exact ⟨p, hlt.le, hplace, pointsAt_of_halts hhalts⟩
  | missing herror =>
    refine ⟨_, Nat.le_refl _, ?_, rfl⟩
    rw [List.take_length]
    exact haccounts.stop herror
  | @unexpected t expected ht =>
    obtain ⟨p, hp⟩ := haccounts.standsAt t ht
    exact ⟨p, hp.lt.le, hp.location, t, ht, rfl, hp⟩
  | @unclosed t ht ho =>
    obtain ⟨p, hp⟩ := haccounts.standsAt t ht
    exact ⟨p, hp.lt.le, hp.location, t, ht, rfl, ho, hp⟩
  | @unnamed t type hlacks =>
    obtain ⟨p, hp⟩ := haccounts.standsAt t hlacks.mem
    exact ⟨p, hp.lt.le, hp.location, t, hlacks, hp⟩

/-- A parameter without a name, behind a comment over two lines. -/
theorem definitions_error_unnamed :
    let source := "float f(/*\n*/in vec2[2] );"
    let e : SyntaxError := ⟨⟨2, 14⟩, .unnamedParameter "vec2[2]"⟩
    definitions source = .error e ∧
      ∃ p ≤ source.toList.length, e.location = .counted (source.toList.take p) ∧
        PointsAt source p e.fault := by
  intro source e
  have hfails : definitions source = .error e := by decide +kernel
  exact ⟨hfails, definitions_error source e hfails⟩

end ShaderGraph.Glsl
