import ShaderGraph.Proofs.Lookahead
import ShaderGraph.Proofs.Relocation

/-!
Extraction sees tokens and nothing else. How they are laid out does not matter, for the
extraction does not look at places; and whether they are all made first or one by one when
they are needed does not matter either (`Cursor.results_eq`). An error of the lexer is met
in the same place: a list keeps it behind its last token, and no operation looks further
than it must.
-/

namespace ShaderGraph.Glsl

namespace Cursor

variable {ending : Ending} {cursor : Cursor} {tokens : List Token}

/-! ## Headers -/

/-- What is read up to the closing bracket is read from the list too, which goes on after it. -/
theorem arraySize_agree {type : String} (h : StandsAt ending cursor tokens) :
    (∃ e, cursor.arraySize type = .error e ∧ Glsl.arraySuffix ending true type tokens = .error e) ∨
      ∃ size later rest, cursor.arraySize type = .ok (size, later) ∧
        StandsAt ending later rest ∧
        Glsl.arraySuffix ending true type tokens =
          Glsl.arraySuffix ending false (size ++ "]") rest := by
  induction tokens generalizing cursor type with
  | nil =>
    refine .inl ⟨_, ?_, rfl⟩
    rw [arraySize, witnessed_bind_error (h.expect_nil _)]
  | cons t tokens ih =>
    obtain ⟨later, hexpect, hlater⟩ := h.expect "`]`"
    rw [arraySize, witnessed_bind_ok hexpect, Glsl.arraySuffix]
    simp only [↓reduceIte]
    by_cases hcloses : t.isPunctuation "]"
    · simp only [hcloses, ↓reduceIte]
      exact .inr ⟨type, later, tokens, rfl, hlater, rfl⟩
    rw [if_neg hcloses, if_neg hcloses]
    split
    · exact .inl ⟨_, rfl, rfl⟩
    · exact ih hlater

theorem arraySuffix_agree {type : String} (h : StandsAt ending cursor tokens) :
    Agree (With ending) (cursor.arraySuffix type) (Glsl.arraySuffix ending false type tokens) := by
  fun_induction arraySuffix cursor type generalizing tokens with
  | case1 cursor type ih =>
    cases tokens with
    | nil =>
      rw [Glsl.arraySuffix]
      refine (h.eat_nil "[").witnessed_bind ?_
      rintro ⟨_, later⟩ _ _ _ ⟨rfl, hlater⟩
      exact .ok (.mk hlater)
    | cons t tokens =>
      rw [Glsl.arraySuffix]
      by_cases hopens : t.isPunctuation "["
      · obtain ⟨later, heat, hlater⟩ := h.eat hopens
        simp only [witnessed_bind_ok heat, hopens, Bool.false_eq_true, ↓reduceIte]
        rcases arraySize_agree hlater with ⟨e, hsize, hlist⟩ | ⟨size, left, rest, hsize, hleft, hlist⟩
        · rw [witnessed_bind_error hsize, hlist]
          exact .error e
        · rw [witnessed_bind_ok hsize, hlist]
          exact ih later heat size left hsize hleft
      · obtain ⟨later, heat, hlater⟩ := h.not_eat hopens
        simp only [witnessed_bind_ok heat, hopens, Bool.false_eq_true, ↓reduceIte]
        exact .ok (.mk hlater)

theorem skipQualifiers_agree {expected : String} {t : Token} (h : StandsAt ending cursor tokens) :
    Agree (With ending) (cursor.skipQualifiers expected t)
      (Glsl.skipQualifiers ending expected [] (t :: tokens)) := by
  fun_induction skipQualifiers cursor expected t generalizing tokens with
  | case1 cursor t hqualifier ih =>
    rw [skipQualifiers_cons, if_pos hqualifier]
    cases tokens with
    | nil =>
      rw [witnessed_bind_error (h.expect_nil _)]
      exact .error _
    | cons next tokens =>
      obtain ⟨later, hexpect, hlater⟩ := h.expect expected
      rw [witnessed_bind_ok hexpect]
      exact ih next later hexpect hlater
  | case2 cursor t hqualifier hlayout ih =>
    rw [skipQualifiers_cons, if_neg hqualifier, if_pos hlayout]
    cases tokens with
    | nil =>
      rw [witnessed_bind_error (h.expectMark_nil _)]
      exact .error _
    | cons bracket tokens =>
      by_cases hbracket : bracket.isPunctuation "("
      · obtain ⟨inside, hmark, hinside⟩ := h.expectMark hbracket
        simp only [witnessed_bind_ok hmark, hbracket, ↓reduceIte]
        rw [skipQualifiers_brackets]
        refine (skipBalanced_agree hinside).witnessed_bind fun left rest hskip _ hleft => ?_
        cases rest with
        | nil =>
          rw [witnessed_bind_error (hleft.expect_nil _)]
          exact .error _
        | cons next rest =>
          obtain ⟨later, hexpect, hlater⟩ := hleft.expect expected
          rw [witnessed_bind_ok hexpect]
          exact ih bracket inside hmark left hskip next later hexpect hlater
      · simp only [witnessed_bind_error (h.not_expectMark hbracket), hbracket, Bool.false_eq_true,
          ↓reduceIte]
        exact .error _
  | case3 cursor t hqualifier hlayout =>
    rw [skipQualifiers_cons, if_neg hqualifier, if_neg hlayout]
    exact .ok (.mk h)

theorem typeWord_agree {expected : String} {t : Token} (h : StandsAt ending cursor tokens) :
    Agree (With ending) (cursor.typeWord expected t)
      (Glsl.typeWord ending expected (t :: tokens)) := by
  refine (skipQualifiers_agree h).bind ?_
  rintro _ _ @⟨word, later, rest, hlater⟩
  simp only
  split
  · exact .ok (.mk hlater)
  · exact .error _

theorem parameter_agree (h : StandsAt ending cursor tokens) :
    Agree (With ending) cursor.parameter (Glsl.parameter ending tokens) := by
  cases tokens with
  | nil =>
    rw [parameter, h.expect_nil]
    exact .error _
  | cons t tokens =>
    obtain ⟨later, hexpect, hlater⟩ := h.expect "a parameter type"
    rw [parameter, hexpect]
    refine (typeWord_agree hlater).bind ?_
    rintro _ _ @⟨word, c₁, rest₁, h₁⟩
    refine (arraySuffix_agree h₁).bind ?_
    rintro _ _ @⟨type, c₂, rest₂, h₂⟩
    cases rest₂ with
    | nil =>
      simp only [h₂.expect_nil]
      exact .error _
    | cons name rest₂ =>
      obtain ⟨c₃, hname, h₃⟩ := h₂.expect "a parameter name"
      simp only [hname]
      refine .ite_same (.error _) ((arraySuffix_agree h₃).bind ?_)
      rintro _ _ @⟨type, c₄, rest₄, h₄⟩
      cases rest₄ with
      | nil =>
        refine (h₄.eat_nil "=").bind ?_
        rintro ⟨_, c₅⟩ _ ⟨rfl, h₅⟩
        exact .ok (.mk h₅)
      | cons t rest₄ =>
        by_cases ht : t.isPunctuation "="
        · obtain ⟨c₅, heat, h₅⟩ := h₄.eat ht
          simp only [heat, ht, ↓reduceIte]
          refine (skipDefault_agree h₅).bind fun c₆ rest₆ h₆ => .ok (.mk h₆)
        · obtain ⟨c₅, heat, h₅⟩ := h₄.not_eat ht
          simp only [heat, ht, Bool.false_eq_true, ↓reduceIte]
          exact .ok (.mk h₅)

/-- The tokens bound the parameters, since a comma stands between any two. -/
theorem parameterList_agree {n : Nat} (h : StandsAt ending cursor tokens)
    (hn : tokens.length < n) :
    Agree (With ending) cursor.parameterList (Glsl.parameterList ending n tokens) := by
  induction n generalizing cursor tokens with
  | zero => omega
  | succ n ih =>
    rw [parameterList, Glsl.parameterList]
    refine (parameter_agree h).witnessed_bind ?_
    rintro _ _ hsocket hlist @⟨socket, left, rest, hleft⟩
    cases rest with
    | nil =>
      simp only
      rw [witnessed_bind_error (hleft.expect_nil _)]
      exact .error _
    | cons t rest =>
      obtain ⟨later, hexpect, hlater⟩ := hleft.expect "`,` or `)`"
      simp only
      rw [witnessed_bind_ok hexpect]
      by_cases hcloses : t.isPunctuation ")"
      · simp only [hcloses, ↓reduceIte]
        exact .ok (.mk hlater)
      by_cases hcomma : t.isPunctuation ","
      · simp only [hcloses, hcomma, Bool.false_eq_true, ↓reduceIte]
        obtain ⟨w, hw, _⟩ := (parameter_eq_ok ⟨t, rest, rfl, by simp [hcomma]⟩).mp hlist
        have hlength := congrArg List.length hw
        rw [List.length_append, List.length_cons] at hlength
        refine (ih hlater (by omega)).bind ?_
        rintro _ _ @⟨sockets, last, rest', hlast⟩
        exact .ok (.mk hlast)
      · simp only [hcloses, hcomma, Bool.false_eq_true, ↓reduceIte]
        exact .error _

/-- Nothing is read ahead where a second token is not needed. -/
theorem voidAhead_other {t : Token} (h : StandsAt ending cursor (t :: tokens))
    (ht : ¬ t.isWord "void") : cursor.voidAhead = .ok none := by
  obtain ⟨later, hnext, _⟩ := h.next
  rw [voidAhead, hnext]
  exact if_neg ht

theorem voidAhead_nil (h : StandsAt ending cursor []) :
    Agree (fun found _ => found = none) cursor.voidAhead ending.check := by
  rcases h.nil with ⟨e, he, hnext, _⟩ | ⟨he, later, hnext, _⟩
  · rw [voidAhead, hnext, Ending.check_of_error he]
    exact .error e
  · rw [voidAhead, hnext, Ending.check_of_none he]
    exact .ok rfl

theorem voidAhead_last {t : Token} (h : StandsAt ending cursor [t]) (ht : t.isWord "void") :
    Agree (fun found _ => found = none) cursor.voidAhead ending.check := by
  obtain ⟨later, hnext, hlater⟩ := h.next
  rw [voidAhead, hnext]
  change Agree _ (if t.isWord "void" then _ else _) _
  rw [if_pos ht]
  rcases hlater.nil with ⟨e, he, hnext, _⟩ | ⟨he, left, hnext, _⟩
  · rw [hnext, Ending.check_of_error he]
    exact .error e
  · rw [hnext, Ending.check_of_none he]
    exact .ok rfl

/-- The copy is taken over only if the word stands alone. -/
theorem voidAhead_void {t next : Token} (h : StandsAt ending cursor (t :: next :: tokens))
    (ht : t.isWord "void") :
    ∃ later, StandsAt ending later tokens ∧
      cursor.voidAhead = .ok (if next.isPunctuation ")" then some later else none) := by
  obtain ⟨left, hnext, hleft⟩ := h.next
  obtain ⟨later, hnext', hlater⟩ := hleft.next
  refine ⟨later, hlater, ?_⟩
  rw [voidAhead, hnext]
  change (if t.isWord "void" then _ else _) = _
  rw [if_pos ht, hnext']
  rfl

theorem parameterList_void {t : Token} (ht : t.isWord "void") {e : SyntaxError}
    (he : ending.error = some e) : Glsl.parameterList ending 2 [t] = .error e := by
  have hqualifier : ¬ t.isQualifier := Token.not_isQualifier_of_isWord ht (by decide)
  have hlayout : ¬ t.isWord "layout" := fun hl => absurd (Token.isWord_unique hl ht) (by decide)
  have hskip : Glsl.skipQualifiers ending "a parameter type" [] [t] = .ok (t, []) := by
    rw [skipQualifiers_cons, if_neg hqualifier, if_neg hlayout]
  have hword : Glsl.typeWord ending "a parameter type" [t] = .ok (t, []) := by
    rw [Glsl.typeWord, hskip]
    exact if_pos (Token.isIdentifier_of_isWord ht)
  have hsuffix : Glsl.arraySuffix ending false t.text [] = .error e := by
    rw [Glsl.arraySuffix, Ending.check_of_error he]
    rfl
  rw [Glsl.parameterList, Glsl.parameter, hword]
  change ((Glsl.arraySuffix ending false t.text [] >>= _) >>= _) = _
  rw [hsuffix]
  rfl

theorem parameters_agree (h : StandsAt ending cursor tokens) :
    Agree (With ending) cursor.parameters (Glsl.parameters ending tokens) := by
  have hseveral {c : Cursor} (hc : StandsAt ending c tokens) :
      Agree (With ending) c.parameterList (Glsl.parameterList ending (tokens.length + 1) tokens) :=
    parameterList_agree hc (Nat.lt_succ_self _)
  rw [parameters]
  rcases tokens with _ | ⟨t, tokens⟩
  · have hlist : Glsl.parameters ending [] = .error (ending.missing "a parameter type") := rfl
    rw [hlist, ← Ending.check_bind_missing]
    refine (h.eat_nil ")").bind ?_
    rintro ⟨_, c⟩ _ ⟨rfl, hc⟩
    rw [← Ending.check_bind_missing]
    refine (voidAhead_nil hc).bind ?_
    rintro _ _ rfl
    exact hseveral hc
  by_cases hcloses : t.isPunctuation ")"
  · obtain ⟨c, heat, hc⟩ := h.eat hcloses
    have hlist : Glsl.parameters ending (t :: tokens) = .ok ([], tokens) := if_pos hcloses
    rw [heat, hlist]
    exact .ok (.mk hc)
  obtain ⟨c, heat, hc⟩ := h.not_eat hcloses
  rw [heat]
  change Agree _ (c.voidAhead >>= _) _
  by_cases hvoid : t.isWord "void"
  · rcases tokens with _ | ⟨next, tokens⟩
    · have hlist : Glsl.parameters ending [t] = Glsl.parameterList ending 2 [t] := if_neg hcloses
      rw [hlist, ← Ending.check_bind fun e he => parameterList_void hvoid he]
      refine (voidAhead_last hc hvoid).bind ?_
      rintro _ _ rfl
      exact hseveral hc
    · obtain ⟨behind, hbehind, hahead⟩ := voidAhead_void hc hvoid
      by_cases hnext : next.isPunctuation ")"
      · have hlist : Glsl.parameters ending (t :: next :: tokens) = .ok ([], tokens) :=
          (if_neg hcloses).trans (if_pos (by rw [hvoid, hnext]; rfl))
        rw [hahead, if_pos hnext, hlist]
        exact .ok (.mk hbehind)
      · have hlist : Glsl.parameters ending (t :: next :: tokens) =
            Glsl.parameterList ending ((t :: next :: tokens).length + 1) (t :: next :: tokens) :=
          (if_neg hcloses).trans (if_neg (by simp [hnext]))
        rw [hahead, if_neg hnext, hlist]
        exact hseveral hc
  · have hlist : Glsl.parameters ending (t :: tokens) =
        Glsl.parameterList ending ((t :: tokens).length + 1) (t :: tokens) := by
      refine (if_neg hcloses).trans ?_
      rcases tokens with _ | ⟨next, tokens⟩
      · rfl
      · exact if_neg (by simp [hvoid])
    rw [voidAhead_other hc hvoid, hlist]
    exact hseveral hc

theorem headerEnd_agree (h : StandsAt ending cursor tokens) :
    Agree (With ending) cursor.headerEnd (Glsl.headerEnd ending tokens) := by
  rw [headerEnd]
  cases tokens with
  | nil =>
    rw [h.expect_nil]
    exact .error _
  | cons t tokens =>
    obtain ⟨later, hexpect, hlater⟩ := h.expect "`;` or `\x7b`"
    rw [hexpect, Glsl.headerEnd]
    refine .ite_same ?_ (.ite_same ?_ (.error _))
    · exact .ok (.mk hlater)
    · exact (skipBalanced_agree hlater).bind fun _ _ hleft => .ok (.mk hleft)

/-! ## Items -/

theorem declarator_agree {word : Token} (h : StandsAt ending cursor tokens) :
    Agree (With ending) (cursor.declarator word) (Glsl.declarator ending word tokens) := by
  refine (arraySuffix_agree h).bind ?_
  rintro _ _ @⟨type, c₁, rest₁, h₁⟩
  cases rest₁ with
  | nil =>
    simp only [h₁.expect_nil]
    exact .error _
  | cons name rest₁ =>
    obtain ⟨c₂, hname, h₂⟩ := h₁.expect "a name"
    simp only [hname]
    refine .ite_same (.error _) ?_
    cases rest₁ with
    | nil =>
      change Agree _ _ (.error (ending.missing "`;`"))
      rw [← Ending.check_bind_missing]
      refine (h₂.eat_nil "(").bind ?_
      rintro ⟨_, c₃⟩ _ ⟨rfl, h₃⟩
      have hskip : Agree (StandsAt ending) c₃.skipStatement (.error (ending.missing "`;`")) :=
        skipStatement_agree h₃
      exact hskip.bind_error
    | cons t rest₂ =>
      by_cases ht : t.isPunctuation "("
      · obtain ⟨c₃, heat, h₃⟩ := h₂.eat ht
        simp only [heat, ht, ↓reduceIte]
        refine (parameters_agree h₃).bind ?_
        rintro _ _ @⟨sockets, c₄, rest₄, h₄⟩
        refine (headerEnd_agree h₄).bind ?_
        rintro _ _ @⟨hasBody, c₅, rest₅, h₅⟩
        exact .ok (.mk h₅)
      · obtain ⟨c₃, heat, h₃⟩ := h₂.not_eat ht
        simp only [heat, ht, Bool.false_eq_true, ↓reduceIte]
        exact (skipStatement_agree h₃).bind fun _ _ h₄ => .ok (.mk h₄)

theorem afterType_agree {word : Token} (h : StandsAt ending cursor tokens) :
    Agree (With ending) (cursor.afterType word) (Glsl.afterType ending word tokens) := by
  rw [afterType]
  cases tokens with
  | nil =>
    rw [Glsl.afterType, ← Ending.check_bind_missing]
    refine h.peek_nil.bind ?_
    rintro ⟨_, later⟩ _ ⟨rfl, hlater⟩
    have hlist : Glsl.declarator ending word [] = .error (ending.missing "a name") := by
      simp only [Glsl.declarator, Glsl.arraySuffix, Bool.false_eq_true, ↓reduceIte, bind_assoc]
      exact Ending.check_bind_missing "a name"
    rw [← hlist]
    exact declarator_agree hlater
  | cons t tokens =>
    obtain ⟨ahead, hpeek, hahead⟩ := h.peek
    rw [hpeek, Glsl.afterType]
    change Agree _ (if t.isPunctuation "\x7b" then _ else _) _
    by_cases ht : t.isPunctuation "\x7b"
    · obtain ⟨c₁, hmark, h₁⟩ := hahead.expectMark ht
      rw [if_pos ht, if_pos ht, hmark]
      refine (skipBalanced_agree h₁).bind fun c₂ rest₂ h₂ => ?_
      exact (skipStatement_agree h₂).bind fun _ _ h₃ => .ok (.mk h₃)
    · rw [if_neg ht, if_neg ht]
      exact declarator_agree hahead

theorem structureName_agree {word : Token} (h : StandsAt ending cursor tokens) :
    Agree (With ending) (cursor.structureName word >>= fun later => later.afterType word)
      (Glsl.afterType ending word (Glsl.structureName word tokens)) := by
  by_cases hstruct : word.isWord "struct"
  · simp only [structureName, hstruct, ↓reduceIte, bind_assoc]
    cases tokens with
    | nil =>
      rw [Glsl.structureName, Glsl.afterType, ← Ending.check_bind_missing]
      refine h.peek_nil.bind ?_
      rintro ⟨_, later⟩ _ ⟨rfl, hlater⟩
      exact afterType_agree hlater
    | cons t tokens =>
      obtain ⟨ahead, hpeek, hahead⟩ := h.peek
      rw [hpeek, Glsl.structureName, hstruct, Bool.true_and]
      by_cases ht : t.isIdentifier
      · obtain ⟨later, hnext, hlater⟩ := hahead.next
        rw [if_pos ht]
        change Agree _ ((if t.isIdentifier then _ else _) >>= _) _
        rw [if_pos ht, hnext]
        exact afterType_agree hlater
      · rw [if_neg ht]
        change Agree _ ((if t.isIdentifier then _ else _) >>= _) _
        rw [if_neg ht]
        exact afterType_agree hahead
  · have hlist : Glsl.structureName word tokens = tokens := by
      cases tokens with
      | nil => rfl
      | cons t tokens => simp [Glsl.structureName, hstruct]
    rw [structureName, if_neg hstruct, hlist]
    exact afterType_agree h

theorem item_agree {first : Token} (h : StandsAt ending cursor tokens) :
    Agree (With ending) (cursor.item first) (Glsl.item ending first tokens) := by
  refine .ite_same ?_ (.ite_same (.error _) (.ite_same ?_ ?_))
  · exact .ok (.mk h)
  · exact (skipStatement_agree h).bind fun _ _ hlater => .ok (.mk hlater)
  · refine (typeWord_agree h).bind ?_
    rintro _ _ @⟨word, later, rest, hlater⟩
    exact structureName_agree hlater

theorem nextItem_nil (h : StandsAt ending cursor []) :
    Agree (fun found _ => found = none) cursor.nextItem ending.check := by
  rw [nextItem]
  rcases h.nil with ⟨e, he, hnext, _⟩ | ⟨he, later, hnext, _⟩
  · rw [hnext, Ending.check_of_error he]
    exact .error e
  · rw [hnext, Ending.check_of_none he]
    exact .ok rfl

theorem nextItem_cons {first : Token} (h : StandsAt ending cursor (first :: tokens)) :
    Agree (fun found left => ∃ item, found = some item ∧ With ending item left) cursor.nextItem
      (Glsl.item ending first tokens) := by
  obtain ⟨left, hnext, hleft⟩ := h.next
  rw [nextItem, hnext, ← bind_pure (Glsl.item ending first tokens)]
  exact (item_agree hleft).bind fun _ _ hitem => .ok ⟨_, rfl, hitem⟩

/-- What is left is the next item and what is left after it. -/
theorem results_unfold (cursor : Cursor) :
    cursor.results =
      match cursor.nextItem with
      | .error error => [.error error]
      | .ok none => []
      | .ok (some (none, later)) => later.results
      | .ok (some (some s, later)) =>
        if s.isSupported then .ok s.toDefinition :: later.results else later.results := by
  rw [results]
  split <;> rename_i hitem <;> rw [hitem]

theorem results_nil (h : StandsAt ending cursor []) :
    cursor.results = (ending.error.map .error).toList := by
  have hitem := nextItem_nil h
  rw [results_unfold]
  generalize cursor.nextItem = outcome at hitem ⊢
  cases he : ending.error with
  | none =>
    rw [Ending.check_of_none he] at hitem
    cases hitem with
    | ok hnone =>
      subst hnone
      rfl
  | some e =>
    rw [Ending.check_of_error he] at hitem
    cases hitem
    rfl

/-- The items come out the same, one by one. -/
theorem results_eq {n : Nat} (h : StandsAt ending cursor tokens) (hn : tokens.length ≤ n) :
    cursor.results = extractItems ending n tokens := by
  induction n generalizing cursor tokens with
  | zero =>
    obtain rfl := List.eq_nil_of_length_eq_zero (Nat.le_zero.mp hn)
    rw [results_nil h, extractItems]
  | succ n ih =>
    rcases tokens with _ | ⟨first, tokens⟩
    · rw [results_nil h, extractItems]
    rw [List.length_cons] at hn
    rw [results_unfold, extractItems]
    have hitem := nextItem_cons h
    generalize hlist : Glsl.item ending first tokens = outcome at hitem ⊢
    generalize cursor.nextItem = outcome' at hitem ⊢
    cases hitem with
    | error e => rfl
    | ok hfound =>
      obtain ⟨_, rfl, @⟨found, later, rest, hlater⟩⟩ := hfound
      have hshorter := item_shortens hlist
      have hrest : later.results = extractItems ending n rest := ih hlater (by omega)
      cases found <;> simp only [hrest]

end Cursor

/-! ## Tokens alone -/

/-- What a token is, wherever it stands. -/
def Token.lexeme (t : Token) : TokenKind × String := (t.kind, t.text)

/-- A token that was put to one fixed place is known by its lexeme. -/
theorem map_moved_start {tokens tokens' : List Token}
    (h : tokens.map Token.lexeme = tokens'.map Token.lexeme) :
    tokens.map (Token.moved fun _ => .start) = tokens'.map (Token.moved fun _ => .start) := by
  have hplace := congrArg (List.map fun p : TokenKind × String => Token.mk p.1 p.2 .start) h
  rwa [List.map_map, List.map_map] at hplace

theorem mapError_movedOutcome {α : Type} (f : Location → Location) (x : Except SyntaxError α) :
    (movedOutcome f id x).mapError SyntaxError.fault = x.mapError SyntaxError.fault := by
  cases x <;> rfl

/-- The same tokens give the same items, and the same fault if reading them fails. -/
theorem extract_of_lexemes {a b : String} (ha : (lex a).ending.error = none)
    (hb : (lex b).ending.error = none)
    (h : (lex a).tokens.map Token.lexeme = (lex b).tokens.map Token.lexeme) :
    (extract a).map (Except.mapError SyntaxError.fault) =
      (extract b).map (Except.mapError SyntaxError.fault) := by
  have hlength : (lex a).tokens.length = (lex b).tokens.length := by
    simpa using congrArg List.length h
  have hending : (lex a).ending.moved (fun _ => .start) = (lex b).ending.moved fun _ => .start := by
    rw [Ending.moved, Ending.moved, ha, hb]
  have hmoved : (extract a).map (movedOutcome (fun _ => .start) id) =
      (extract b).map (movedOutcome (fun _ => .start) id) := by
    rw [extract, extract, ← extractItems_moved, ← extractItems_moved, hending, hlength,
      map_moved_start h]
  have hfault := congrArg (List.map (Except.mapError SyntaxError.fault)) hmoved
  simpa only [List.map_map, Function.comp_def, mapError_movedOutcome] using hfault

theorem mapM_mapError {ε δ α : Type} (g : ε → δ) (xs : List (Except ε α)) :
    (xs.map (Except.mapError g)).mapM id = (xs.mapM id).mapError g := by
  induction xs with
  | nil => rfl
  | cons x xs ih =>
    rw [List.map_cons, List.mapM_cons, List.mapM_cons, ih]
    cases x with
    | error e => rfl
    | ok a => cases xs.mapM id <;> rfl

/-- **Extraction sees tokens and nothing else.** Two texts that are read to their ends into the
same kinds and texts of tokens have the same definitions or the same fault, and a text that
is read on demand gives what its list of tokens gives. -/
theorem extraction_sees_tokens :
    (∀ a b : String, (lex a).ending.error = none → (lex b).ending.error = none →
      (lex a).tokens.map Token.lexeme = (lex b).tokens.map Token.lexeme →
      (∃ found, definitions a = .ok found ∧ definitions b = .ok found) ∨
        ∃ e e', definitions a = .error e ∧ definitions b = .error e' ∧ e.fault = e'.fault) ∧
      ∀ source, Cursor.extract source = extract source := by
  constructor
  · intro a b ha hb h
    have hsame : (definitions a).mapError SyntaxError.fault =
        (definitions b).mapError SyntaxError.fault := by
      rw [definitions, definitions, ← mapM_mapError, ← mapM_mapError, extract_of_lexemes ha hb h]
    cases hda : definitions a with
    | ok found =>
      cases hdb : definitions b with
      | ok found' =>
        rw [hda, hdb] at hsame
        cases hsame
        exact .inl ⟨found, rfl, rfl⟩
      | error e' =>
        rw [hda, hdb] at hsame
        cases hsame
    | error e =>
      cases hdb : definitions b with
      | ok found' =>
        rw [hda, hdb] at hsame
        cases hsame
      | error e' =>
        rw [hda, hdb] at hsame
        exact .inr ⟨e, e', rfl, rfl, Except.error.inj hsame⟩
  · exact fun source => Cursor.results_eq (Cursor.standsAt_lexer rfl) (Nat.le_refl _)

/-- A comment and a line break change where the fault is, and not what it is. -/
theorem extraction_sees_tokens_broken :
    (lex "float f(float);").tokens.map Token.lexeme =
        (lex "float\nf(/* x */ float );").tokens.map Token.lexeme ∧
      (∃ e e', definitions "float f(float);" = .error e ∧
        definitions "float\nf(/* x */ float );" = .error e' ∧ e.fault = e'.fault) ∧
      Cursor.extract "float f(float);" = extract "float f(float);" := by
  have hlexemes : (lex "float f(float);").tokens.map Token.lexeme =
      (lex "float\nf(/* x */ float );").tokens.map Token.lexeme := by decide +kernel
  have hfault : definitions "float f(float);" = .error ⟨⟨1, 14⟩, .unnamedParameter "float"⟩ := by
    decide +kernel
  refine ⟨hlexemes, ?_, extraction_sees_tokens.2 _⟩
  rcases extraction_sees_tokens.1 _ _ (by decide +kernel) (by decide +kernel) hlexemes with
    ⟨found, hfound, _⟩ | hsame
  · cases hfound.symm.trans hfault
  · exact hsame

end ShaderGraph.Glsl
