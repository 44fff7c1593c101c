import ShaderGraph.Proofs.Grammar

/-!
The functions that read the parts of a header: groups, qualifiers, array suffixes
and parameters. For each there is one lemma. It succeeds with a result and a rest
exactly when the tokens are a word of the grammar for that result, followed by
the rest. Where a function looks one token ahead, the lemma says what the rest
may start with.
-/

namespace ShaderGraph.Glsl

variable {ending : Ending} {expected : String} {tokens rest : List Token} {t : Token}

namespace Token

theorem isIdentifier_of_isWord {text : String} (h : t.isWord text) : t.isIdentifier := by
  simp only [isWord, isIdentifier, Bool.and_eq_true] at h ⊢
  exact h.1

theorem isIdentifier_of_isQualifier (h : t.isQualifier) : t.isIdentifier := by
  simp only [isQualifier, Bool.and_eq_true] at h
  exact h.1

theorem not_isIdentifier_of_isPunctuation {text : String} (h : t.isPunctuation text) :
    ¬ t.isIdentifier := by
  simp only [isPunctuation, isIdentifier, Bool.and_eq_true, beq_iff_eq] at h ⊢
  simp [h.1]

theorem not_isPunctuation_of_isIdentifier {text : String} (h : t.isIdentifier) :
    ¬ t.isPunctuation text := fun hp => not_isIdentifier_of_isPunctuation hp h

theorem not_isQualifier_of_isWord {text : String} (h : t.isWord text) (ht : text ∉ qualifiers) :
    ¬ t.isQualifier := by
  simp only [isWord, isQualifier, Bool.and_eq_true, beq_iff_eq] at h ⊢
  simp [h.2, ht]

theorem text_of_isPunctuation {text : String} (h : t.isPunctuation text) : t.text = text := by
  simp only [isPunctuation, Bool.and_eq_true, beq_iff_eq] at h
  exact h.2

theorem isPunctuation_unique {a b : String} (ha : t.isPunctuation a) (hb : t.isPunctuation b) :
    a = b := by
  rw [← text_of_isPunctuation ha, text_of_isPunctuation hb]

theorem isWord_unique {a b : String} (ha : t.isWord a) (hb : t.isWord b) : a = b := by
  simp only [isWord, Bool.and_eq_true, beq_iff_eq] at ha hb
  rw [← ha.2, hb.2]

theorem namesType_iff : t.namesType ↔ t.isIdentifier ∧ ¬ t.isQualifier ∧ ¬ t.isWord "layout" := by
  simp [namesType, and_assoc]

theorem namesType_of_text (hk : t.kind = .identifier) (ht : t.text ∉ "layout" :: qualifiers) :
    t.namesType := by
  simp only [List.mem_cons, not_or] at ht
  simp [namesType, isQualifier, isIdentifier, isWord, hk, ht]

theorem not_isWord_of_text {text : String} (ht : t.text ≠ text) : ¬ t.isWord text := by
  simp [isWord, ht]

end Token

/-! ## Groups and qualifiers -/

theorem skipBalanced_group {bracket : String} (h : t.isPunctuation bracket) :
    skipBalanced ending [t] tokens = .ok rest ↔
      ∃ g, t :: tokens = g ++ rest ∧ Group bracket g := by
  rw [skipBalanced_eq_ok]
  constructor
  · rintro ⟨u, c, later, rfl, hu, hc, rfl⟩
    exact ⟨t :: (u ++ [c]), by simp, t, u, c, rfl, h, hc, hu⟩
  · rintro ⟨g, he, o, u, c, rfl, _, hc, hu⟩
    simp only [List.cons_append, List.append_assoc, List.cons.injEq] at he
    obtain ⟨rfl, rfl⟩ := he
    exact ⟨u, c, rest, rfl, hu, hc, rfl⟩

/-- Qualifiers, and then a token that is none. -/
def Leads (t : Token) (rest tokens : List Token) : Prop :=
  ∃ q, tokens = q ++ t :: rest ∧ Qualifiers q ∧ ¬ t.isQualifier ∧ ¬ t.isWord "layout"

section Leads

variable {x : Token}

theorem not_leads_nil : ¬ Leads t rest [] := by
  rintro ⟨q, h, _⟩
  simp at h

theorem leads_qualifier (h : x.isQualifier) :
    Leads t rest (x :: tokens) ↔ Leads t rest tokens := by
  constructor
  · rintro ⟨q, he, hq, ht⟩
    cases hq with
    | nil =>
      cases he
      exact absurd h ht.1
    | word _ hq =>
      cases he
      exact ⟨_, rfl, hq, ht⟩
    | layout hl _ _ =>
      cases he
      exact absurd h (Token.not_isQualifier_of_isWord hl (by decide))
  · rintro ⟨q, rfl, hq, ht⟩
    exact ⟨x :: q, rfl, .word h hq, ht⟩

theorem not_leads_layout_nil (h : x.isWord "layout") : ¬ Leads t rest [x] := by
  rintro ⟨q, he, hq, ht⟩
  cases hq with
  | nil =>
    cases he
    exact ht.2 h
  | word _ _ => simp at he
  | layout _ _ _ => simp at he

theorem leads_layout {b : Token} (h : x.isWord "layout") :
    Leads t rest (x :: b :: tokens) ↔
      b.isPunctuation "(" ∧ Closing (Leads t rest) [b] tokens := by
  constructor
  · rintro ⟨q, he, hq, ht⟩
    cases hq with
    | nil =>
      cases he
      exact absurd h ht.2
    | word hx _ =>
      obtain ⟨rfl, _⟩ := List.cons.inj he
      exact absurd hx (Token.not_isQualifier_of_isWord h (by decide))
    | layout _ hg hq =>
      obtain ⟨o, u, c, rfl, ho, hc, hu⟩ := hg
      simp only [List.cons_append, List.append_assoc, List.cons.injEq] at he
      obtain ⟨rfl, rfl, rfl⟩ := he
      exact ⟨ho, u, c, _, by simp, hu, hc, _, rfl, hq, ht⟩
  · rintro ⟨hb, u, c, _, rfl, hu, hc, q, rfl, hq, ht⟩
    exact ⟨x :: ((b :: (u ++ [c])) ++ q), by simp, .layout h ⟨b, u, c, rfl, hb, hc, hu⟩ hq, ht⟩

theorem leads_other (hq : ¬ x.isQualifier) (hl : ¬ x.isWord "layout") :
    Leads t rest (x :: tokens) ↔ x = t ∧ tokens = rest := by
  constructor
  · rintro ⟨q, he, hq', _⟩
    cases hq' with
    | nil =>
      cases he
      exact ⟨rfl, rfl⟩
    | word hx _ =>
      cases he
      exact absurd hx hq
    | layout hx _ _ =>
      cases he
      exact absurd hx hl
  · rintro ⟨rfl, rfl⟩
    exact ⟨[], rfl, .nil, hq, hl⟩

end Leads

theorem skipQualifiers_eq_ok {brackets : List Token} :
    skipQualifiers ending expected brackets tokens = .ok (t, rest) ↔
      Closing (Leads t rest) brackets tokens := by
  -- a layout takes two tokens at once, so the induction follows the function
  fun_induction skipQualifiers ending expected brackets tokens with
  | case1 => simp [Closing, not_leads_nil]
  | case2 => simp [not_closing_nil]
  | case3 x tokens hx ih => rw [ih, closing_nil, closing_nil, leads_qualifier hx]
  | case4 x _ hl => simp [Closing, not_leads_layout_nil hl]
  | case5 x _ hl b tokens hb ih =>
    rw [ih, closing_nil, leads_layout hl]
    simp [hb]
  | case6 x _ hl b tokens hb => simp [Closing, leads_layout hl, hb]
  | case7 x tokens hq hl =>
    rw [closing_nil, leads_other hq hl]
    simp
  | case8 top outer x tokens ih => simp only [bind_eq_ok, closing_cons, ih]

theorem typeWord_eq_ok :
    typeWord ending expected tokens = .ok (t, rest) ↔
      ∃ q, tokens = q ++ t :: rest ∧ Qualifiers q ∧ t.namesType := by
  simp only [typeWord, bind_eq_ok, Prod.exists, skipQualifiers_eq_ok, Closing]
  constructor
  · rintro ⟨x, later, ⟨q, rfl, hq, hx⟩, h⟩
    split at h
    · rename_i hi
      cases h
      exact ⟨q, rfl, hq, Token.namesType_iff.mpr ⟨hi, hx⟩⟩
    · cases h
  · rintro ⟨q, rfl, hq, ht⟩
    obtain ⟨hi, hx⟩ := Token.namesType_iff.mp ht
    exact ⟨t, rest, ⟨q, rfl, hq, hx⟩, if_pos hi⟩

/-! ## Array suffixes -/

/-- Array suffixes, the first of which may be open. -/
def SuffixesFrom : Bool → List Token → Prop
  | false, w => Suffixes w
  | true, w => ∃ size c v, w = size ++ c :: v ∧ (∀ t ∈ size, t.inSize) ∧ c.isPunctuation "]" ∧
      Suffixes v

theorem not_inSize_of_closes (h : t.isPunctuation "]") : ¬ t.inSize := by
  simp only [Token.isPunctuation, Bool.and_eq_true, beq_iff_eq] at h
  simp [Token.inSize, h.1, h.2, sizeOperators]

theorem suffixesFrom_false {w : List Token} : SuffixesFrom false w ↔ Suffixes w := Iff.rfl

theorem not_suffixesFrom_nil : ¬ SuffixesFrom true [] := by
  rintro ⟨size, c, v, h, _⟩
  simp at h

theorem suffixes_cons {w : List Token} :
    Suffixes (t :: w) ↔ t.isPunctuation "[" ∧ SuffixesFrom true w := by
  constructor
  · intro h
    cases h with
    | cons ho hs hc hw => exact ⟨ho, _, _, _, rfl, hs, hc, hw⟩
  · rintro ⟨ho, size, c, v, rfl, hs, hc, hv⟩
    exact .cons ho hs hc hv

theorem suffixesFrom_closes {w : List Token} (h : t.isPunctuation "]") :
    SuffixesFrom true (t :: w) ↔ Suffixes w := by
  constructor
  · rintro ⟨size, c, v, he, hs, hc, hv⟩
    cases size with
    | nil =>
      cases he
      exact hv
    | cons x size =>
      cases he
      exact absurd (hs t (List.mem_cons_self ..)) (not_inSize_of_closes h)
  · intro hw
    exact ⟨[], t, w, rfl, by simp, h, hw⟩

theorem suffixesFrom_size {w : List Token} (h : ¬ t.isPunctuation "]") :
    SuffixesFrom true (t :: w) ↔ t.inSize ∧ SuffixesFrom true w := by
  constructor
  · rintro ⟨size, c, v, he, hs, hc, hv⟩
    cases size with
    | nil =>
      cases he
      exact absurd hc h
    | cons x size =>
      cases he
      obtain ⟨hx, hs⟩ := List.forall_mem_cons.mp hs
      exact ⟨hx, size, c, v, rfl, hs, hc, hv⟩
  · rintro ⟨hx, size, c, v, rfl, hs, hc, hv⟩
    exact ⟨t :: size, c, v, rfl, List.forall_mem_cons.mpr ⟨hx, hs⟩, hc, hv⟩

/-- A word at the front of some tokens is empty or takes the first of them. -/
theorem exists_append_cons {Q : List Token → Prop} :
    (∃ w, t :: tokens = w ++ rest ∧ Q w) ↔
      (t :: tokens = rest ∧ Q []) ∨ ∃ w, tokens = w ++ rest ∧ Q (t :: w) := by
  constructor
  · rintro ⟨w, he, hw⟩
    cases w with
    | nil => exact .inl ⟨he, hw⟩
    | cons x w =>
      cases he
      exact .inr ⟨w, rfl, hw⟩
  · rintro (⟨he, hw⟩ | ⟨w, rfl, hw⟩)
    · exact ⟨[], he, hw⟩
    · exact ⟨t :: w, rfl, hw⟩

/-- What may follow array suffixes. -/
def AfterSuffixes (ending : Ending) : List Token → Prop
  | [] => ending.error = none
  | t :: _ => ¬ t.isPunctuation "["

theorem spelling_cons (t : Token) (w : List Token) : spelling (t :: w) = t.text ++ spelling w := by
  simp [spelling]

theorem check_eq_ok {u : Unit} : ending.check = .ok u ↔ ending.error = none := by
  unfold Ending.check
  cases ending.error <;> simp

theorem arraySuffix_nil {inside : Bool} {type type' : String} :
    arraySuffix ending inside type [] = .ok (type', rest) ↔
      ∃ w, [] = w ++ rest ∧ SuffixesFrom inside w ∧ type' = type ++ spelling w ∧
        AfterSuffixes ending rest := by
  have hnil : ∀ w : List Token, [] = w ++ rest ↔ w = [] ∧ rest = [] := by simp
  cases inside with
  | false =>
    simp only [arraySuffix, Bool.false_eq_true, ↓reduceIte, bind_eq_ok, check_eq_ok, hnil]
    constructor
    · rintro ⟨_, herror, h⟩
      cases h
      exact ⟨[], ⟨rfl, rfl⟩, .nil, by simp [spelling], herror⟩
    · rintro ⟨_, ⟨rfl, rfl⟩, _, rfl, herror⟩
      exact ⟨(), herror, by simp [spelling]; rfl⟩
  | true =>
    simp only [arraySuffix, ↓reduceIte, reduceCtorEq, hnil, false_iff]
    rintro ⟨_, ⟨rfl, _⟩, h, _⟩
    exact not_suffixesFrom_nil h

theorem arraySuffix_eq_ok {inside : Bool} {type type' : String} :
    arraySuffix ending inside type tokens = .ok (type', rest) ↔
      ∃ w, tokens = w ++ rest ∧ SuffixesFrom inside w ∧ type' = type ++ spelling w ∧
        AfterSuffixes ending rest := by
  induction tokens generalizing inside type with
  | nil => exact arraySuffix_nil
  | cons t tokens ih =>
    rw [arraySuffix, exists_append_cons]
    cases inside with
    | false =>
      by_cases ho : t.isPunctuation "["
      · have hrest : ¬ (t :: tokens = rest ∧ Suffixes [] ∧ type' = type ++ spelling [] ∧
            AfterSuffixes ending rest) := by
          rintro ⟨rfl, _, _, h⟩
          exact h ho
        simp only [Bool.false_eq_true, ↓reduceIte, ho, ih, suffixesFrom_false, hrest, false_or,
          suffixes_cons, true_and, spelling_cons, Token.text_of_isPunctuation ho,
          String.append_assoc]
      · simp only [Bool.false_eq_true, ↓reduceIte, ho, suffixesFrom_false, suffixes_cons,
          false_and, and_false, exists_false, or_false, Except.ok.injEq, Prod.mk.injEq]
        constructor
        · rintro ⟨rfl, rfl⟩
          exact ⟨rfl, .nil, by simp [spelling], ho⟩
        · rintro ⟨rfl, _, rfl, _⟩
          exact ⟨by simp [spelling], rfl⟩
    | true =>
      have hsize : (decide (t.kind = .punctuation) && !sizeOperators.contains t.text) =
          !t.inSize := by
        by_cases hk : t.kind = .punctuation <;> simp [Token.inSize, hk]
      simp only [↓reduceIte, not_suffixesFrom_nil, false_and, and_false, false_or]
      by_cases hc : t.isPunctuation "]"
      · simp only [↓reduceIte, hc, ih, suffixesFrom_closes hc, suffixesFrom_false, spelling_cons,
          Token.text_of_isPunctuation hc, String.append_assoc]
      · simp only [hc, hsize, suffixesFrom_size hc, spelling_cons]
        by_cases hs : t.inSize
        · simp [hs, ih, String.append_assoc]
        · simp [hs]

/-! ## Parameters -/

/-- What ends a parameter. -/
def Separated (rest : List Token) : Prop :=
  ∃ t later, rest = t :: later ∧ (t.isPunctuation "," || t.isPunctuation ")")

/-- Reads a default value if there is one. -/
def skipDefault? (ending : Ending) : List Token → Except SyntaxError (List Token)
  | [] => do ending.check; return []
  | t :: tokens => if t.isPunctuation "=" then skipDefault ending tokens else .ok (t :: tokens)

theorem parameter_steps {socket : Socket} :
    parameter ending tokens = .ok (socket, rest) ↔
      ∃ word afterWord type name afterName type' afterSuffixes,
        typeWord ending "a parameter type" tokens = .ok (word, afterWord) ∧
        arraySuffix ending false word.text afterWord = .ok (type, name :: afterName) ∧
        name.isIdentifier ∧
        arraySuffix ending false type afterName = .ok (type', afterSuffixes) ∧
        skipDefault? ending afterSuffixes = .ok rest ∧
        socket = ⟨.ofName type', name.text⟩ := by
  unfold parameter
  constructor
  · intro h
    obtain ⟨⟨word, afterWord⟩, hword, h⟩ := bind_eq_ok.mp h
    obtain ⟨⟨type, _ | ⟨name, afterName⟩⟩, htype, h⟩ := bind_eq_ok.mp h
    · cases h
    by_cases hname : name.isIdentifier
    · simp only [hname, Bool.not_true, Bool.false_eq_true, ↓reduceIte] at h
      obtain ⟨⟨type', afterSuffixes⟩, htype', h⟩ := bind_eq_ok.mp h
      refine ⟨word, afterWord, type, name, afterName, type', afterSuffixes, hword, htype, hname,
        htype', ?_⟩
      rcases afterSuffixes with _ | ⟨t, later⟩
      · obtain ⟨_, hcheck, h⟩ := bind_eq_ok.mp h
        cases h
        exact ⟨bind_eq_ok.mpr ⟨_, hcheck, rfl⟩, rfl⟩
      · simp only [skipDefault?] at h ⊢
        split at h
        · rename_i ht
          obtain ⟨left, hleft, h⟩ := bind_eq_ok.mp h
          cases h
          exact ⟨by simp [ht, hleft], rfl⟩
        · rename_i ht
          cases h
          exact ⟨by simp [ht], rfl⟩
    · simp only [hname, Bool.not_false, ↓reduceIte] at h
      cases h
  · rintro ⟨word, afterWord, type, name, afterName, type', afterSuffixes, hword, htype, hname,
      htype', hdefault, rfl⟩
    refine bind_eq_ok.mpr ⟨_, hword, bind_eq_ok.mpr ⟨_, htype, ?_⟩⟩
    simp only [hname, Bool.not_true, Bool.false_eq_true, ↓reduceIte]
    refine bind_eq_ok.mpr ⟨_, htype', ?_⟩
    rcases afterSuffixes with _ | ⟨t, later⟩
    · obtain ⟨_, hcheck, h⟩ := bind_eq_ok.mp hdefault
      cases h
      exact bind_eq_ok.mpr ⟨_, hcheck, rfl⟩
    · simp only [skipDefault?] at hdefault ⊢
      split at hdefault
      · rename_i ht
        simp only [ht, ↓reduceIte]
        exact bind_eq_ok.mpr ⟨_, hdefault, rfl⟩
      · rename_i ht
        cases hdefault
        simp only [ht]
        rfl

theorem skipDefault?_eq_ok (hrest : Separated rest) :
    skipDefault? ending tokens = .ok rest ↔ ∃ d, tokens = d ++ rest ∧ Default d := by
  obtain ⟨x, later, rfl, hx⟩ := hrest
  rcases tokens with _ | ⟨t, tokens⟩
  · simp [skipDefault?, bind_eq_ok, pure, Except.pure]
  rw [skipDefault?, exists_append_cons]
  by_cases he : t.isPunctuation "="
  · have hne : t :: tokens ≠ x :: later := by
      rintro ⟨⟩
      rw [Bool.or_eq_true] at hx
      rcases hx with hx | hx <;> simpa using Token.isPunctuation_unique he hx
    simp only [he, ↓reduceIte, hne, false_and, false_or, skipDefault_eq_ok]
    constructor
    · rintro ⟨w, rfl, hw, _⟩
      exact ⟨w, rfl, .value he hw⟩
    · rintro ⟨w, rfl, hd⟩
      cases hd with
      | value _ hw => exact ⟨w, rfl, hw, x, later, rfl, hx⟩
  · simp only [he, Bool.false_eq_true, ↓reduceIte, Except.ok.injEq]
    constructor
    · intro h
      exact .inl ⟨h, .none⟩
    · rintro (⟨h, _⟩ | ⟨w, _, hd⟩)
      · exact h
      · cases hd with
        | value h _ => exact absurd h he

theorem afterSuffixes_of_isIdentifier (h : t.isIdentifier) : AfterSuffixes ending (t :: tokens) :=
  Token.not_isPunctuation_of_isIdentifier h

theorem afterSuffixes_default {d : List Token} (hd : Default d) (hrest : Separated rest) :
    AfterSuffixes ending (d ++ rest) := by
  cases hd with
  | none =>
    obtain ⟨x, later, rfl, hx⟩ := hrest
    rw [Bool.or_eq_true] at hx
    intro ho
    rcases hx with hx | hx <;> simpa using Token.isPunctuation_unique ho hx
  | value he _ =>
    intro ho
    simpa using Token.isPunctuation_unique ho he

theorem parameter_eq_ok {socket : Socket} (hrest : Separated rest) :
    parameter ending tokens = .ok (socket, rest) ↔
      ∃ w, tokens = w ++ rest ∧ Parameter w socket := by
  simp only [parameter_steps, typeWord_eq_ok, arraySuffix_eq_ok, skipDefault?_eq_ok hrest]
  constructor
  · rintro ⟨word, _, _, name, _, _, _, ⟨q, rfl, hq, hword⟩, ⟨s, rfl, hs, rfl, _⟩, hname,
      ⟨s', rfl, hs', rfl, _⟩, ⟨d, rfl, hd⟩, rfl⟩
    exact ⟨_, by simp, .mk hq hword hs hname hs' hd⟩
  · rintro ⟨_, rfl, @⟨q, s, s', d, word, name, hq, hword, hs, hname, hs', hd⟩⟩
    exact ⟨word, s ++ name :: (s' ++ (d ++ rest)), _, name, s' ++ (d ++ rest), _, d ++ rest,
      ⟨q, by simp, hq, hword⟩, ⟨s, rfl, hs, rfl, afterSuffixes_of_isIdentifier hname⟩, hname,
      ⟨s', rfl, hs', rfl, afterSuffixes_default hd hrest⟩, ⟨d, rfl, hd⟩, rfl⟩

theorem parameterList_eq_ok {n : Nat} {sockets : List Socket} :
    parameterList ending n tokens = .ok (sockets, rest) ↔
      ∃ w c, tokens = w ++ c :: rest ∧ c.isPunctuation ")" ∧ ParameterList w sockets ∧
        sockets.length ≤ n := by
  induction n generalizing tokens sockets with
  | zero =>
    simp only [parameterList, reduceCtorEq, false_iff]
    rintro ⟨_, _, _, _, hw, hlength⟩
    cases hw <;> simp at hlength
  | succ n ih =>
    rw [parameterList]
    constructor
    · intro h
      obtain ⟨⟨socket, _ | ⟨x, later⟩⟩, hsocket, h⟩ := bind_eq_ok.mp h
      · cases h
      simp only at h
      split at h
      · rename_i hx
        cases h
        obtain ⟨w, rfl, hw⟩ := (parameter_eq_ok ⟨x, rest, rfl, by simp [hx]⟩).mp hsocket
        exact ⟨w, x, rfl, hx, .one hw, by simp⟩
      split at h
      · rename_i hx
        obtain ⟨⟨others, left⟩, hothers, h⟩ := bind_eq_ok.mp h
        cases h
        obtain ⟨w, rfl, hw⟩ := (parameter_eq_ok ⟨x, later, rfl, by simp [hx]⟩).mp hsocket
        obtain ⟨v, c, rfl, hc, hv, hlength⟩ := ih.mp hothers
        exact ⟨w ++ x :: v, c, by simp, hc, .cons hw hx hv, by simpa using hlength⟩
      · cases h
    · rintro ⟨w, c, rfl, hc, hw, hlength⟩
      cases hw with
      | @one _ socket hw =>
        have hsocket : parameter ending (w ++ c :: rest) = .ok (socket, c :: rest) :=
          (parameter_eq_ok ⟨c, rest, rfl, by simp [hc]⟩).mpr ⟨w, rfl, hw⟩
        refine bind_eq_ok.mpr ⟨_, hsocket, ?_⟩
        simp only [hc, ↓reduceIte]
        rfl
      | @cons w v comma socket others hw hx hv =>
        have hsocket : parameter ending (w ++ comma :: (v ++ c :: rest)) = .ok (socket, _) :=
          (parameter_eq_ok ⟨comma, _, rfl, by simp [hx]⟩).mpr ⟨w, rfl, hw⟩
        have hothers : parameterList ending n (v ++ c :: rest) = .ok (others, rest) :=
          ih.mpr ⟨v, c, rfl, hc, hv, by simpa using hlength⟩
        have hparen : ¬ comma.isPunctuation ")" := fun h => by
          simpa using Token.isPunctuation_unique hx h
        rw [List.append_assoc]
        refine bind_eq_ok.mpr ⟨_, hsocket, ?_⟩
        simp only [hparen, hx, ↓reduceIte]
        exact bind_eq_ok.mpr ⟨_, hothers, rfl⟩

/-- A parameter has two tokens at least. It starts with an identifier, and the word
`void` with a closing parenthesis after it starts none. -/
theorem Parameter.first_two {w : List Token} {socket : Socket} (h : Parameter w socket) :
    ∃ x y v, w = x :: y :: v ∧ x.isIdentifier ∧ (x.isWord "void" → ¬ y.isPunctuation ")") := by
  obtain @⟨q, s, s', d, word, name, hq, hword, hs, hname, _, _⟩ := h
  cases hq with
  | nil =>
    have hi := (Token.namesType_iff.mp hword).1
    cases hs with
    | nil =>
      exact ⟨word, name, _, rfl, hi, fun _ => Token.not_isPunctuation_of_isIdentifier hname⟩
    | cons ho _ _ _ =>
      exact ⟨word, _, _, rfl, hi, fun _ hc => by simpa using Token.isPunctuation_unique ho hc⟩
  | @word x q hx _ =>
    obtain ⟨y, v, he⟩ : ∃ y v, q ++ word :: (s ++ name :: (s' ++ d)) = y :: v :=
      List.exists_cons_of_ne_nil (by simp)
    refine ⟨x, y, v, by rw [List.cons_append, he], Token.isIdentifier_of_isQualifier hx, ?_⟩
    intro hv
    exact absurd hx (Token.not_isQualifier_of_isWord hv (by decide))
  | layout hx hg hq =>
    obtain ⟨o, u, c, rfl, ho, _⟩ := hg
    exact ⟨_, o, _, rfl, Token.isIdentifier_of_isWord hx,
      fun _ hc => by simpa using Token.isPunctuation_unique ho hc⟩

theorem ParameterList.first_two {w : List Token} {sockets : List Socket}
    (h : ParameterList w sockets) :
    ∃ x y v, w = x :: y :: v ∧ x.isIdentifier ∧ (x.isWord "void" → ¬ y.isPunctuation ")") := by
  cases h with
  | one hw => exact hw.first_two
  | cons hw _ _ =>
    obtain ⟨x, y, v, rfl, h⟩ := hw.first_two
    exact ⟨x, y, _, rfl, h⟩

theorem ParameterList.length_le {w : List Token} {sockets : List Socket}
    (h : ParameterList w sockets) : sockets.length ≤ w.length := by
  induction h with
  | one hw =>
    obtain ⟨x, y, v, rfl, _⟩ := hw.first_two
    simp
  | cons _ _ _ ih =>
    simp only [List.length_cons, List.length_append]
    omega

theorem several_eq_ok {sockets : List Socket} :
    parameterList ending (tokens.length + 1) tokens = .ok (sockets, rest) ↔
      ∃ w c, tokens = w ++ c :: rest ∧ c.isPunctuation ")" ∧ ParameterList w sockets := by
  rw [parameterList_eq_ok]
  constructor
  · rintro ⟨w, c, he, hc, hw, _⟩
    exact ⟨w, c, he, hc, hw⟩
  · rintro ⟨w, c, rfl, hc, hw⟩
    have hlength := hw.length_le
    refine ⟨w, c, rfl, hc, hw, ?_⟩
    simp only [List.length_append, List.length_cons]
    omega

theorem parameters_eq_ok {sockets : List Socket} :
    parameters ending tokens = .ok (sockets, rest) ↔
      ∃ w c, tokens = w ++ c :: rest ∧ c.isPunctuation ")" ∧ Parameters w sockets := by
  constructor
  · intro h
    have hlist : parameterList ending (tokens.length + 1) tokens = .ok (sockets, rest) →
        ∃ w c, tokens = w ++ c :: rest ∧ c.isPunctuation ")" ∧ Parameters w sockets := by
      intro h
      obtain ⟨w, c, he, hc, hw⟩ := several_eq_ok.mp h
      exact ⟨w, c, he, hc, .list hw⟩
    unfold parameters at h
    rcases tokens with _ | ⟨t, tokens⟩
    · exact hlist h
    simp only at h
    split at h
    · rename_i ht
      cases h
      exact ⟨[], t, rfl, ht, .nothing⟩
    rcases tokens with _ | ⟨next, tokens⟩
    · exact hlist h
    simp only at h
    split at h
    · rename_i hv
      cases h
      rw [Bool.and_eq_true] at hv
      exact ⟨[t], next, rfl, hv.2, .void hv.1⟩
    · exact hlist h
  · rintro ⟨w, c, rfl, hc, hw⟩
    cases hw with
    | nothing => simp [parameters, hc]
    | @void v hv =>
      have hparen : ¬ v.isPunctuation ")" :=
        Token.not_isPunctuation_of_isIdentifier (Token.isIdentifier_of_isWord hv)
      simp [parameters, hparen, hv, hc]
    | list hw =>
      -- a list is tried last: it must not look like nothing or like the word `void`
      have hlist : parameterList ending _ (w ++ c :: rest) = _ :=
        several_eq_ok.mpr ⟨w, c, rfl, hc, hw⟩
      obtain ⟨x, y, v, rfl, hx, hxy⟩ := hw.first_two
      have hparen : ¬ x.isPunctuation ")" := Token.not_isPunctuation_of_isIdentifier hx
      have hvoid : (x.isWord "void" && y.isPunctuation ")") = false := by
        by_cases hv : x.isWord "void"
        · simp [hxy hv]
        · simp [hv]
      simpa [parameters, hparen, hvoid] using hlist

end ShaderGraph.Glsl
