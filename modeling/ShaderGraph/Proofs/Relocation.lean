import ShaderGraph.Proofs.Acceptance

/-!
The extraction does not look at places. Tokens that stand elsewhere are read the same
way, and an error is reported at the place to which its cause was moved
(`extractItems_moved`). No law is asked of the move: it may put everything below some
lines, or at one and the same place. Nor does the grammar look into a directive that
comes last (`Items.last_directive`), since a directive ends no other item.
-/

namespace ShaderGraph.Glsl

/-- The place so many lines further down. -/
def Location.down (k : Nat) (l : Location) : Location := ⟨l.line + k, l.column⟩

section Moved

variable (f : Location → Location)

/-- The token at another place. -/
def Token.moved (t : Token) : Token := { t with location := f t.location }

/-- The error at another place. -/
def SyntaxError.moved (e : SyntaxError) : SyntaxError := { e with location := f e.location }

/-- The end of a text at another place. -/
def Ending.moved (ending : Ending) : Ending :=
  ⟨f ending.stop, ending.error.map (SyntaxError.moved f)⟩

/-- All tokens of a text at another place. -/
def Lexed.moved (lexed : Lexed) : Lexed :=
  ⟨lexed.tokens.map (Token.moved f), lexed.ending.moved f⟩

/-- An outcome with its error at another place, and with `g` applied to its result. -/
def movedOutcome {α β : Type} (g : α → β) : Except SyntaxError α → Except SyntaxError β
  | .ok a => .ok (g a)
  | .error e => .error (e.moved f)

/-- A result and the tokens that are left, at another place. -/
def movedRest {α : Type} (found : α × List Token) : α × List Token :=
  (found.1, found.2.map (Token.moved f))

section Outcome

variable {f}

/-- A computation is moved step by step. -/
theorem movedOutcome_bind {α α' β β' : Type} {g : α → α'} {g' : β → β'}
    {x : Except SyntaxError α} {y : Except SyntaxError α'} {k : α → Except SyntaxError β}
    {k' : α' → Except SyntaxError β'} (hx : y = movedOutcome f g x)
    (hk : ∀ a, k' (g a) = movedOutcome f g' (k a)) :
    (y >>= k') = movedOutcome f g' (x >>= k) := by
  subst hx
  cases x with
  | error e => rfl
  | ok a => exact hk a

theorem movedOutcome_ite {α β : Type} {g : α → β} {p : Prop} [Decidable p]
    {x x' : Except SyntaxError α} {y y' : Except SyntaxError β} (h : y = movedOutcome f g x)
    (h' : y' = movedOutcome f g x') :
    (if p then y else y') = movedOutcome f g (if p then x else x') := by
  split
  · exact h
  · exact h'

end Outcome

variable {ending : Ending}

namespace Ending

theorem moved_check : (ending.moved f).check = movedOutcome f id ending.check := by
  unfold check moved
  cases ending.error <;> rfl

theorem moved_missing (expected : String) :
    (ending.moved f).missing expected = (ending.missing expected).moved f := by
  unfold missing moved
  cases ending.error <;> rfl

theorem moved_unclosed (bracket : Token) :
    (ending.moved f).unclosed (bracket.moved f) = (ending.unclosed bracket).moved f := by
  unfold unclosed moved
  cases ending.error <;> rfl

end Ending

/-! ## Brackets -/

theorem bracketStep_moved (top : Token) (outer : List Token) (t : Token) :
    bracketStep (top.moved f) (outer.map (Token.moved f)) (t.moved f) =
      movedOutcome f (List.map (Token.moved f)) (bracketStep top outer t) := by
  unfold bracketStep
  exact movedOutcome_ite rfl (movedOutcome_ite (movedOutcome_ite rfl rfl) rfl)

theorem skipBalanced_moved (brackets tokens : List Token) :
    skipBalanced (ending.moved f) (brackets.map (Token.moved f)) (tokens.map (Token.moved f)) =
      movedOutcome f (List.map (Token.moved f)) (skipBalanced ending brackets tokens) := by
  induction tokens generalizing brackets with
  | nil =>
    cases brackets with
    | nil => rfl
    | cons top outer => exact congrArg Except.error (Ending.moved_unclosed f top)
  | cons t tokens ih =>
    cases brackets with
    | nil => rfl
    | cons top outer => exact movedOutcome_bind (bracketStep_moved f top outer t) ih

theorem skipUntil_moved {stops bars : Token → Bool} (hstops : ∀ t, stops (t.moved f) = stops t)
    (hbars : ∀ t, bars (t.moved f) = bars t) (expected : String) (brackets tokens : List Token) :
    skipUntil (ending.moved f) stops bars expected (brackets.map (Token.moved f))
        (tokens.map (Token.moved f)) =
      movedOutcome f (List.map (Token.moved f))
        (skipUntil ending stops bars expected brackets tokens) := by
  induction tokens generalizing brackets with
  | nil =>
    cases brackets with
    | nil => exact congrArg Except.error (Ending.moved_missing f expected)
    | cons top outer => exact congrArg Except.error (Ending.moved_unclosed f top)
  | cons t tokens ih =>
    cases brackets with
    | nil =>
      simp only [List.map_cons, List.map_nil, skipUntil, hstops, hbars]
      refine movedOutcome_ite rfl (movedOutcome_ite rfl ?_)
      have hbracket : (if (t.moved f).opens then [t.moved f] else []) =
          (if t.opens then [t] else []).map (Token.moved f) := by
        show (if t.opens then [t.moved f] else []) = _
        split <;> rfl
      rw [hbracket]
      exact ih _
    | cons top outer => exact movedOutcome_bind (bracketStep_moved f top outer t) ih

theorem skipStatement_moved (tokens : List Token) :
    skipStatement (ending.moved f) (tokens.map (Token.moved f)) =
      movedOutcome f (List.map (Token.moved f)) (skipStatement ending tokens) := by
  have h : skipUntil (ending.moved f) (·.isPunctuation ";") Token.closes "`;`" []
      (tokens.map (Token.moved f)) = _ :=
    skipUntil_moved f (fun _ => rfl) (fun _ => rfl) "`;`" [] tokens
  unfold skipStatement
  rw [h]
  cases skipUntil ending (·.isPunctuation ";") Token.closes "`;`" [] tokens with
  | error e => rfl
  | ok rest => exact congrArg Except.ok List.map_tail.symm

theorem skipDefault_moved (tokens : List Token) :
    skipDefault (ending.moved f) (tokens.map (Token.moved f)) =
      movedOutcome f (List.map (Token.moved f)) (skipDefault ending tokens) :=
  skipUntil_moved f (fun _ => rfl) (fun _ => rfl) "`)`" [] tokens

/-! ## Headers -/

theorem arraySuffix_moved (inside : Bool) (type : String) (tokens : List Token) :
    arraySuffix (ending.moved f) inside type (tokens.map (Token.moved f)) =
      movedOutcome f (movedRest f) (arraySuffix ending inside type tokens) := by
  induction tokens generalizing inside type with
  | nil =>
    refine movedOutcome_ite (congrArg Except.error (Ending.moved_missing f _)) ?_
    exact movedOutcome_bind (Ending.moved_check f) fun _ => rfl
  | cons t tokens ih =>
    refine movedOutcome_ite ?_ (movedOutcome_ite (ih _ _) rfl)
    exact movedOutcome_ite (ih _ _) (movedOutcome_ite rfl (ih _ _))

/-- A token and the tokens behind it, at another place. -/
def movedToken (found : Token × List Token) : Token × List Token :=
  (found.1.moved f, found.2.map (Token.moved f))

/-- Qualifiers are passed over one by one, a layout with its bracket. -/
theorem skipQualifiers_cons (expected : String) (t : Token) (tokens : List Token) :
    skipQualifiers ending expected [] (t :: tokens) =
      if t.isQualifier then skipQualifiers ending expected [] tokens
      else if t.isWord "layout" then
        match tokens with
        | [] => .error (ending.missing (quoted "("))
        | bracket :: tokens =>
          if bracket.isPunctuation "(" then skipQualifiers ending expected [bracket] tokens
          else .error (bracket.unexpected (quoted "("))
      else .ok (t, tokens) :=
  skipQualifiers.eq_def ending expected [] (t :: tokens)

theorem skipQualifiers_moved (expected : String) (brackets tokens : List Token) :
    skipQualifiers (ending.moved f) expected (brackets.map (Token.moved f))
        (tokens.map (Token.moved f)) =
      movedOutcome f (movedToken f) (skipQualifiers ending expected brackets tokens) := by
  -- a layout takes two tokens at once
  induction hn : tokens.length using Nat.strongRecOn generalizing brackets tokens with
  | _ n ih =>
    subst hn
    rcases brackets with _ | ⟨top, outer⟩ <;> rcases tokens with _ | ⟨t, tokens⟩
    · exact congrArg Except.error (Ending.moved_missing f expected)
    · rw [List.map_nil, List.map_cons, skipQualifiers_cons, skipQualifiers_cons]
      refine movedOutcome_ite (ih _ (by simp) [] tokens rfl) (movedOutcome_ite ?_ rfl)
      cases tokens with
      | nil => exact congrArg Except.error (Ending.moved_missing f _)
      | cons bracket tokens =>
        have hshorter : tokens.length < (t :: bracket :: tokens).length := by
          simp only [List.length_cons]
          omega
        exact movedOutcome_ite (ih _ hshorter [bracket] tokens rfl) rfl
    · exact congrArg Except.error (Ending.moved_unclosed f top)
    · exact movedOutcome_bind (bracketStep_moved f top outer t) fun brackets =>
        ih _ (by simp) brackets tokens rfl

theorem typeWord_moved (expected : String) (tokens : List Token) :
    typeWord (ending.moved f) expected (tokens.map (Token.moved f)) =
      movedOutcome f (movedToken f) (typeWord ending expected tokens) :=
  movedOutcome_bind (skipQualifiers_moved f expected [] tokens) fun _ => movedOutcome_ite rfl rfl

theorem parameter_moved (tokens : List Token) :
    parameter (ending.moved f) (tokens.map (Token.moved f)) =
      movedOutcome f (movedRest f) (parameter ending tokens) := by
  refine movedOutcome_bind (typeWord_moved f _ tokens) fun ⟨word, tokens⟩ => ?_
  refine movedOutcome_bind (arraySuffix_moved f false word.text tokens) fun ⟨type, tokens⟩ => ?_
  cases tokens with
  | nil => exact congrArg Except.error (Ending.moved_missing f _)
  | cons name tokens =>
    refine movedOutcome_ite rfl ?_
    refine movedOutcome_bind (arraySuffix_moved f false type tokens) fun ⟨type, tokens⟩ => ?_
    cases tokens with
    | nil => exact movedOutcome_bind (Ending.moved_check f) fun _ => rfl
    | cons t tokens =>
      exact movedOutcome_ite (movedOutcome_bind (skipDefault_moved f tokens) fun _ => rfl) rfl

theorem parameterList_moved (n : Nat) (tokens : List Token) :
    parameterList (ending.moved f) n (tokens.map (Token.moved f)) =
      movedOutcome f (movedRest f) (parameterList ending n tokens) := by
  induction n generalizing tokens with
  | zero => exact congrArg Except.error (Ending.moved_missing f _)
  | succ n ih =>
    refine movedOutcome_bind (parameter_moved f tokens) fun ⟨socket, tokens⟩ => ?_
    cases tokens with
    | nil => exact congrArg Except.error (Ending.moved_missing f _)
    | cons t tokens =>
      refine movedOutcome_ite rfl (movedOutcome_ite ?_ rfl)
      exact movedOutcome_bind (ih tokens) fun _ => rfl

theorem parameters_moved (tokens : List Token) :
    parameters (ending.moved f) (tokens.map (Token.moved f)) =
      movedOutcome f (movedRest f) (parameters ending tokens) := by
  have hseveral : parameterList (ending.moved f) (tokens.length + 1) (tokens.map (Token.moved f)) =
      movedOutcome f (movedRest f) (parameterList ending (tokens.length + 1) tokens) :=
    parameterList_moved f (tokens.length + 1) tokens
  unfold parameters
  rw [List.length_map]
  rcases tokens with _ | ⟨t, _ | ⟨next, rest⟩⟩
  · exact hseveral
  · exact movedOutcome_ite rfl hseveral
  · exact movedOutcome_ite rfl (movedOutcome_ite rfl hseveral)

theorem headerEnd_moved (tokens : List Token) :
    headerEnd (ending.moved f) (tokens.map (Token.moved f)) =
      movedOutcome f (movedRest f) (headerEnd ending tokens) := by
  cases tokens with
  | nil => exact congrArg Except.error (Ending.moved_missing f _)
  | cons t tokens =>
    refine movedOutcome_ite rfl (movedOutcome_ite ?_ rfl)
    exact movedOutcome_bind (skipBalanced_moved f [t] tokens) fun _ => rfl

/-! ## Items -/

theorem declarator_moved (word : Token) (tokens : List Token) :
    declarator (ending.moved f) (word.moved f) (tokens.map (Token.moved f)) =
      movedOutcome f (movedRest f) (declarator ending word tokens) := by
  refine movedOutcome_bind (arraySuffix_moved f false word.text tokens) fun ⟨type, tokens⟩ => ?_
  cases tokens with
  | nil => exact congrArg Except.error (Ending.moved_missing f _)
  | cons name tokens =>
    refine movedOutcome_ite rfl ?_
    cases tokens with
    | nil => exact congrArg Except.error (Ending.moved_missing f _)
    | cons t tokens =>
      refine movedOutcome_ite ?_
        (movedOutcome_bind (skipStatement_moved f (t :: tokens)) fun _ => rfl)
      refine movedOutcome_bind (parameters_moved f tokens) fun ⟨sockets, tokens⟩ => ?_
      exact movedOutcome_bind (headerEnd_moved f tokens) fun _ => rfl

theorem structureName_moved (word : Token) (tokens : List Token) :
    structureName (word.moved f) (tokens.map (Token.moved f)) =
      (structureName word tokens).map (Token.moved f) := by
  cases tokens with
  | nil => rfl
  | cons t tokens =>
    show (if word.isWord "struct" && t.isIdentifier then _ else _) = _
    rw [structureName]
    split <;> rfl

theorem item_moved (first : Token) (tokens : List Token) :
    item (ending.moved f) (first.moved f) (tokens.map (Token.moved f)) =
      movedOutcome f (movedRest f) (item ending first tokens) := by
  refine movedOutcome_ite rfl (movedOutcome_ite rfl (movedOutcome_ite ?_ ?_))
  · exact movedOutcome_bind (skipStatement_moved f tokens) fun _ => rfl
  · refine movedOutcome_bind (typeWord_moved f _ (first :: tokens)) fun ⟨word, tokens⟩ => ?_
    simp only [movedToken, structureName_moved]
    cases structureName word tokens with
    | nil => exact congrArg Except.error (Ending.moved_missing f _)
    | cons t rest =>
      refine movedOutcome_ite ?_ (declarator_moved f word (t :: rest))
      refine movedOutcome_bind (skipBalanced_moved f [t] rest) fun tokens => ?_
      exact movedOutcome_bind (skipStatement_moved f tokens) fun _ => rfl

/-- **What is extracted from tokens does not depend on where they stand**, but for the
place of the error. -/
theorem extractItems_moved (n : Nat) (tokens : List Token) :
    extractItems (ending.moved f) n (tokens.map (Token.moved f)) =
      (extractItems ending n tokens).map (movedOutcome f id) := by
  induction n generalizing tokens with
  | zero =>
    cases tokens with
    | nil =>
      unfold extractItems Ending.moved
      cases ending.error <;> rfl
    | cons first tokens => rfl
  | succ n ih =>
    cases tokens with
    | nil =>
      unfold extractItems Ending.moved
      cases ending.error <;> rfl
    | cons first tokens =>
      rw [List.map_cons, extractItems, extractItems, item_moved]
      cases item ending first tokens with
      | error e => rfl
      | ok found =>
        obtain ⟨found, rest⟩ := found
        cases found with
        | none => exact ih rest
        | some s =>
          simp only [movedOutcome, movedRest, ih]
          split <;> rfl

end Moved

/-! ## The last token -/

/-- The word ends in a punctuation mark. -/
def EndsInMark (w : List Token) : Prop := ∃ u t, w = u ++ [t] ∧ t.kind = .punctuation

theorem Token.kind_of_isPunctuation {t : Token} {text : String} (h : t.isPunctuation text) :
    t.kind = .punctuation := by
  simp only [isPunctuation, Bool.and_eq_true, beq_iff_eq] at h
  exact h.1

theorem EndsInMark.append {w : List Token} (h : EndsInMark w) (u : List Token) :
    EndsInMark (u ++ w) := by
  obtain ⟨v, t, rfl, ht⟩ := h
  exact ⟨u ++ v, t, by simp, ht⟩

theorem Statement.endsInMark {w : List Token} (h : Statement w) : EndsInMark w := by
  obtain ⟨u, s, rfl, _, hs⟩ := h
  exact ⟨u, s, rfl, Token.kind_of_isPunctuation hs⟩

theorem HeaderEnd.endsInMark {w : List Token} {hasBody : Bool} (h : HeaderEnd w hasBody) :
    EndsInMark w := by
  cases h with
  | prototype ht => exact ⟨[], _, rfl, Token.kind_of_isPunctuation ht⟩
  | body hg =>
    obtain ⟨o, u, c, rfl, _, hc, _⟩ := hg
    exact ⟨o :: u, c, rfl, Token.kind_of_isPunctuation hc⟩

theorem Declarator.endsInMark {type : Token} {w : List Token} {found : Option Signature}
    (h : Declarator type w found) : EndsInMark w := by
  cases h with
  | block _ hw => exact hw.endsInMark.append _
  | @global s w name _ _ hw _ =>
    rw [List.append_cons]
    exact hw.endsInMark.append _
  | @function s p e name o c _ _ _ _ _ _ _ he =>
    have hword : s ++ name :: o :: (p ++ c :: e) = (s ++ name :: o :: (p ++ [c])) ++ e := by simp
    rw [hword]
    exact he.endsInMark.append _

/-- An item that is no directive ends in a punctuation mark. -/
theorem Item.endsInMark {w : List Token} {found : Option Signature} (h : Item w found) :
    (∃ t, w = [t] ∧ t.kind = .directive ∧ found = none) ∨ EndsInMark w := by
  cases h with
  | directive ht => exact .inl ⟨_, rfl, ht, rfl⟩
  | empty ht => exact .inr ⟨[], _, rfl, Token.kind_of_isPunctuation ht⟩
  | @precision t w _ hw => exact .inr (hw.endsInMark.append [t])
  | @declaration q n w type _ _ _ _ _ hw =>
    have hword : q ++ type :: (n ++ w) = (q ++ type :: n) ++ w := by simp
    rw [hword]
    exact .inr (hw.endsInMark.append _)

/-- **A directive at the end** may as well be another one. -/
theorem Items.last_directive {w front : List Token} {d d' : Token} {signatures : List Signature}
    (h : Items w signatures) (hw : w = front ++ [d]) (hd : d.kind = .directive)
    (hd' : d'.kind = .directive) : Items (front ++ [d']) signatures := by
  induction h generalizing front with
  | nil => simp at hw
  | @cons w v found later hi hv ih =>
    rcases List.eq_nil_or_concat v with rfl | ⟨v, last, rfl⟩
    · rw [List.append_nil] at hw
      rcases hi.endsInMark with ⟨t, rfl, _, rfl⟩ | ⟨u, t, rfl, ht⟩
      · have hfront : front = [] := by
          rw [← List.nil_append [t]] at hw
          exact (List.append_inj' hw rfl).1.symm
        subst hfront
        have hone : Items ([d'] ++ []) _ := .cons (.directive hd') hv
        exact hone
      · obtain ⟨_, hlast⟩ := List.append_inj' hw rfl
        cases hlast
        rw [hd] at ht
        cases ht
    · rw [List.concat_eq_append, ← List.append_assoc] at hw
      obtain ⟨rfl, hlast⟩ := List.append_inj' hw rfl
      cases hlast
      rw [List.append_assoc]
      exact .cons hi (ih (List.concat_eq_append ..))

end ShaderGraph.Glsl
