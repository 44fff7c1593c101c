import ShaderGraph.Proofs.Header
import ShaderGraph.Proofs.Lexing

/-!
The extraction of signatures accepts the grammar: `definitions` succeeds exactly
on the texts whose tokens are a sequence of items, and it gives the definitions
of the supported functions among them, in order.
-/

namespace ShaderGraph.Glsl

variable {ending : Ending} {tokens rest : List Token} {t : Token}

/-! ## Declarations -/

theorem Group.starts {bracket : String} {g : List Token} (h : Group bracket g) :
    ∃ o v, g = o :: v ∧ o.isPunctuation bracket := by
  obtain ⟨o, u, c, rfl, ho, _⟩ := h
  exact ⟨o, _, rfl, ho⟩

theorem Statement.starts {w : List Token} (h : Statement w) : ∃ x v, w = x :: v := by
  obtain ⟨u, s, rfl, _⟩ := h
  exact List.exists_cons_of_ne_nil (by simp)

theorem headerEnd_eq_ok {hasBody : Bool} :
    headerEnd ending tokens = .ok (hasBody, rest) ↔
      ∃ w, tokens = w ++ rest ∧ HeaderEnd w hasBody := by
  rcases tokens with _ | ⟨t, tokens⟩
  · simp only [headerEnd, reduceCtorEq, false_iff]
    rintro ⟨w, he, hw⟩
    cases hw with
    | prototype _ => simp at he
    | body hg =>
      obtain ⟨o, v, rfl, _⟩ := hg.starts
      simp at he
  rw [headerEnd]
  constructor
  · intro h
    split at h
    · rename_i ht
      cases h
      exact ⟨[t], rfl, .prototype ht⟩
    split at h
    · rename_i ht
      obtain ⟨left, hleft, h⟩ := bind_eq_ok.mp h
      cases h
      obtain ⟨g, he, hg⟩ := (skipBalanced_group ht).mp hleft
      exact ⟨g, he, .body hg⟩
    · cases h
  · rintro ⟨w, he, hw⟩
    cases hw with
    | prototype ht =>
      cases he
      simp [ht]
    | body hg =>
      obtain ⟨o, v, rfl, ho⟩ := hg.starts
      obtain ⟨rfl, _⟩ := List.cons.inj he
      have hsemicolon : ¬ t.isPunctuation ";" := fun h => by
        simpa using Token.isPunctuation_unique ho h
      simp only [hsemicolon, ho, ↓reduceIte]
      exact bind_eq_ok.mpr ⟨rest, (skipBalanced_group ho).mpr ⟨_, he, hg⟩, rfl⟩

theorem declarator_steps {word : Token} {found : Option Signature} :
    declarator ending word tokens = .ok (found, rest) ↔
      ∃ type name t later,
        arraySuffix ending false word.text tokens = .ok (type, name :: t :: later) ∧
        name.isIdentifier ∧
        ((t.isPunctuation "(" ∧ ∃ sockets afterList hasBody,
            parameters ending later = .ok (sockets, afterList) ∧
            headerEnd ending afterList = .ok (hasBody, rest) ∧
            found = some ⟨type, name.text, sockets, hasBody⟩) ∨
          (¬ t.isPunctuation "(" ∧ skipStatement ending (t :: later) = .ok rest ∧
            found = none)) := by
  unfold declarator
  constructor
  · intro h
    obtain ⟨⟨type, _ | ⟨name, tokens⟩⟩, htype, h⟩ := bind_eq_ok.mp h
    · cases h
    by_cases hname : name.isIdentifier
    · simp only [hname, Bool.not_true, Bool.false_eq_true, ↓reduceIte] at h
      rcases tokens with _ | ⟨t, later⟩
      · cases h
      refine ⟨type, name, t, later, htype, hname, ?_⟩
      simp only at h
      split at h
      · rename_i ht
        obtain ⟨⟨sockets, afterList⟩, hsockets, h⟩ := bind_eq_ok.mp h
        obtain ⟨⟨hasBody, left⟩, hbody, h⟩ := bind_eq_ok.mp h
        cases h
        exact .inl ⟨ht, sockets, afterList, hasBody, hsockets, hbody, rfl⟩
      · rename_i ht
        obtain ⟨left, hleft, h⟩ := bind_eq_ok.mp h
        cases h
        exact .inr ⟨ht, hleft, rfl⟩
    · simp only [hname, Bool.not_false, ↓reduceIte] at h
      cases h
  · rintro ⟨type, name, t, later, htype, hname, h⟩
    refine bind_eq_ok.mpr ⟨_, htype, ?_⟩
    simp only [hname, Bool.not_true, Bool.false_eq_true, ↓reduceIte]
    rcases h with ⟨ht, sockets, afterList, hasBody, hsockets, hbody, rfl⟩ | ⟨ht, hleft, rfl⟩
    · simp only [ht, ↓reduceIte]
      exact bind_eq_ok.mpr ⟨_, hsockets, bind_eq_ok.mpr ⟨_, hbody, rfl⟩⟩
    · simp only [ht]
      exact bind_eq_ok.mpr ⟨_, hleft, rfl⟩

/-- A block starts with a brace, and nothing else that follows a type does. -/
theorem declarator_eq_ok {word : Token} {found : Option Signature}
    (hbrace : ∀ t ∈ tokens.head?, ¬ t.isPunctuation "\x7b") :
    declarator ending word tokens = .ok (found, rest) ↔
      ∃ w, tokens = w ++ rest ∧ Declarator word w found := by
  simp only [declarator_steps, arraySuffix_eq_ok, parameters_eq_ok, headerEnd_eq_ok,
    skipStatement_eq_ok]
  constructor
  · rintro ⟨_, name, t, later, ⟨s, rfl, hs, rfl, _⟩, hname, h⟩
    rcases h with ⟨ht, sockets, _, hasBody, ⟨p, c, rfl, hc, hp⟩, ⟨e, rfl, he⟩, rfl⟩ |
      ⟨ht, ⟨w, hw, hstatement⟩, rfl⟩
    · exact ⟨_, by simp, .function hs hname ht hp hc he⟩
    · obtain ⟨x, v, rfl⟩ := hstatement.starts
      obtain ⟨rfl, rfl⟩ := List.cons.inj hw
      exact ⟨_, by simp, .global hs hname hstatement (by simpa using ht)⟩
  · rintro ⟨_, rfl, h⟩
    cases h with
    | block hg _ =>
      obtain ⟨o, v, rfl, ho⟩ := hg.starts
      exact absurd ho (hbrace o (by simp))
    | @global s w name hs hname hw hparen =>
      obtain ⟨x, v, rfl⟩ := hw.starts
      exact ⟨_, name, x, v ++ rest,
        ⟨s, by simp, hs, rfl, afterSuffixes_of_isIdentifier hname⟩, hname,
        .inr ⟨hparen x (by simp), ⟨x :: v, rfl, hw⟩, rfl⟩⟩
    | @function s p e name o c sockets hasBody hs hname ho hp hc he =>
      exact ⟨_, name, o, p ++ c :: (e ++ rest),
        ⟨s, by simp, hs, rfl, afterSuffixes_of_isIdentifier hname⟩, hname,
        .inl ⟨ho, sockets, e ++ rest, hasBody, ⟨p, c, rfl, hc, hp⟩, ⟨e, rfl, he⟩, rfl⟩⟩

/-! ## Items -/

/-- Reads what follows the type of a declaration. -/
def afterType (ending : Ending) (word : Token) (tokens : List Token) :
    Except SyntaxError (Option Signature × List Token) :=
  match tokens with
  | [] => .error (ending.missing "a name")
  | t :: rest =>
    if t.isPunctuation "\x7b" then do
      let tokens ← skipBalanced ending [t] rest
      return (none, ← skipStatement ending tokens)
    else declarator ending word (t :: rest)

theorem Declarator.starts {word : Token} {w : List Token} {found : Option Signature}
    (h : Declarator word w found) : ∃ x v, w = x :: v := by
  cases h with
  | block hg _ =>
    obtain ⟨o, v, rfl, _⟩ := hg.starts
    exact ⟨o, _, rfl⟩
  | global _ _ _ _ => exact List.exists_cons_of_ne_nil (by simp)
  | function _ _ _ _ _ _ => exact List.exists_cons_of_ne_nil (by simp)

theorem Suffixes.not_brace {s v : List Token} {name : Token} (hs : Suffixes s)
    (hname : name.isIdentifier) (he : t :: tokens = s ++ name :: v) :
    ¬ t.isPunctuation "\x7b" := by
  cases hs with
  | nil =>
    cases he
    exact Token.not_isPunctuation_of_isIdentifier hname
  | cons ho _ _ _ =>
    obtain ⟨rfl, _⟩ := List.cons.inj he
    intro hb
    simpa using Token.isPunctuation_unique ho hb

theorem afterType_eq_ok {word : Token} {found : Option Signature} :
    afterType ending word tokens = .ok (found, rest) ↔
      ∃ w, tokens = w ++ rest ∧ Declarator word w found := by
  rcases tokens with _ | ⟨t, tokens⟩
  · simp only [afterType, reduceCtorEq, false_iff]
    rintro ⟨w, he, hw⟩
    obtain ⟨x, v, rfl⟩ := hw.starts
    simp at he
  rw [afterType]
  by_cases ht : t.isPunctuation "\x7b"
  · simp only [ht, ↓reduceIte]
    constructor
    · intro h
      obtain ⟨left, hleft, h⟩ := bind_eq_ok.mp h
      obtain ⟨_, hstatement, h⟩ := bind_eq_ok.mp h
      cases h
      obtain ⟨g, he, hg⟩ := (skipBalanced_group ht).mp hleft
      obtain ⟨w, rfl, hw⟩ := skipStatement_eq_ok.mp hstatement
      exact ⟨g ++ w, by rw [he, List.append_assoc], .block hg hw⟩
    · rintro ⟨_, he, h⟩
      cases h with
      | @block g w hg hw =>
        rw [List.append_assoc] at he
        exact bind_eq_ok.mpr ⟨w ++ rest, (skipBalanced_group ht).mpr ⟨g, he, hg⟩,
          bind_eq_ok.mpr ⟨rest, skipStatement_eq_ok.mpr ⟨w, rfl, hw⟩, rfl⟩⟩
      | global hs hname _ _ =>
        rw [List.append_assoc] at he
        exact absurd ht (hs.not_brace hname he)
      | function hs hname _ _ _ _ =>
        rw [List.append_assoc] at he
        exact absurd ht (hs.not_brace hname he)
  · simp only [ht, Bool.false_eq_true, ↓reduceIte]
    exact declarator_eq_ok (by simpa using ht)

theorem structureName_split (word : Token) (tokens : List Token) :
    ∃ n, tokens = n ++ structureName word tokens ∧
      StructureName word n (structureName word tokens) := by
  rcases tokens with _ | ⟨t, tokens⟩
  · exact ⟨[], rfl, .none (by simp [structureName])⟩
  rw [structureName]
  by_cases h : word.isWord "struct" && t.isIdentifier
  · rw [if_pos h]
    rw [Bool.and_eq_true] at h
    exact ⟨[t], rfl, .name h.1 h.2⟩
  · rw [if_neg h]
    refine ⟨[], rfl, .none fun hs x hx => ?_⟩
    cases hx
    simpa [hs] using h

theorem StructureName.eq {word : Token} {n : List Token} (h : StructureName word n tokens) :
    structureName word (n ++ tokens) = tokens := by
  cases h with
  | name hs ht => simp [structureName, hs, ht]
  | none h =>
    rcases tokens with _ | ⟨t, tokens⟩
    · rfl
    · have hno : (word.isWord "struct" && t.isIdentifier) = false := by
        by_cases hs : word.isWord "struct"
        · simpa [hs] using h hs t rfl
        · simp [hs]
      simp [structureName, hno]

/-- Only the first token after the name matters. -/
theorem structureName_append {word x : Token} {n w : List Token} :
    StructureName word n (x :: w ++ rest) ↔ StructureName word n (x :: w) := by
  constructor
  · intro h
    cases h with
    | name hs ht => exact .name hs ht
    | none h => exact .none (by simpa using h)
  · intro h
    cases h with
    | name hs ht => exact .name hs ht
    | none h => exact .none (by simpa using h)

theorem item_declaration {first : Token} (hi : first.isIdentifier)
    (hp : ¬ first.isWord "precision") :
    item ending first tokens = typeWord ending "a type" (first :: tokens) >>= fun found =>
      afterType ending found.1 (structureName found.1 found.2) := by
  have hk : first.kind = .identifier := by simpa [Token.isIdentifier] using hi
  have hsemicolon : ¬ first.isPunctuation ";" := Token.not_isPunctuation_of_isIdentifier hi
  simp only [item, hk, hsemicolon, hi, hp, reduceCtorEq, decide_false, Bool.or_self,
    Bool.false_eq_true, ↓reduceIte, Bool.not_true]
  rfl

/-- The first token of a declaration is an identifier. It is not the word `precision`
unless it is the type. -/
theorem Qualifiers.first {q v : List Token} {word x : Token} (hq : Qualifiers q)
    (hword : word.namesType) (he : x :: tokens = q ++ word :: v) :
    x.isIdentifier ∧ (x.isWord "precision" → q = [] ∧ x = word) := by
  cases hq with
  | nil =>
    cases he
    exact ⟨(Token.namesType_iff.mp hword).1, fun _ => ⟨rfl, rfl⟩⟩
  | word hx _ =>
    obtain ⟨rfl, _⟩ := List.cons.inj he
    exact ⟨Token.isIdentifier_of_isQualifier hx,
      fun hp => absurd hx (Token.not_isQualifier_of_isWord hp (by decide))⟩
  | layout hx _ _ =>
    obtain ⟨rfl, _⟩ := List.cons.inj he
    exact ⟨Token.isIdentifier_of_isWord hx,
      fun hp => absurd (Token.isWord_unique hx hp) (by decide)⟩

theorem item_precision {first : Token} (h : first.isWord "precision") :
    item ending first tokens = skipStatement ending tokens >>= fun rest => .ok (none, rest) := by
  have hi := Token.isIdentifier_of_isWord h
  have hk : first.kind = .identifier := by simpa [Token.isIdentifier] using hi
  have hsemicolon : ¬ first.isPunctuation ";" := Token.not_isPunctuation_of_isIdentifier hi
  simp only [item, hk, hsemicolon, hi, h, reduceCtorEq, decide_false, Bool.or_self,
    Bool.false_eq_true, ↓reduceIte, Bool.not_true]
  rfl

theorem item_eq_ok {first : Token} {found : Option Signature} :
    item ending first tokens = .ok (found, rest) ↔
      ∃ w, first :: tokens = w ++ rest ∧ Item w found := by
  constructor
  · intro h
    by_cases hd : first.kind = .directive
    · simp only [item, hd, decide_true, Bool.true_or, ↓reduceIte] at h
      cases h
      exact ⟨[first], rfl, .directive hd⟩
    by_cases hs : first.isPunctuation ";"
    · simp only [item, hs, Bool.or_true, ↓reduceIte] at h
      cases h
      exact ⟨[first], rfl, .empty hs⟩
    by_cases hi : first.isIdentifier
    · by_cases hp : first.isWord "precision"
      · rw [item_precision hp] at h
        obtain ⟨left, hleft, h⟩ := bind_eq_ok.mp h
        cases h
        obtain ⟨w, rfl, hw⟩ := skipStatement_eq_ok.mp hleft
        exact ⟨first :: w, rfl, .precision hp hw⟩
      · rw [item_declaration hi hp] at h
        obtain ⟨⟨word, later⟩, hword, h⟩ := bind_eq_ok.mp h
        obtain ⟨q, he, hq, hnames⟩ := typeWord_eq_ok.mp hword
        obtain ⟨w, hw, hdeclarator⟩ := afterType_eq_ok.mp h
        obtain ⟨n, hn, hname⟩ := structureName_split word later
        simp only at hw
        rw [hw] at hn hname
        -- the function sees all tokens that are left, the grammar only those of the item
        obtain ⟨x, v, rfl⟩ := hdeclarator.starts
        rw [structureName_append] at hname
        refine ⟨q ++ word :: (n ++ x :: v), by simp [he, hn],
          .declaration hq hnames ?_ hname hdeclarator⟩
        rintro rfl hprecision
        cases he
        exact hp hprecision
    · simp only [item, hd, hs, hi, decide_false, Bool.or_self, Bool.false_eq_true, ↓reduceIte,
        Bool.not_false] at h
      cases h
  · rintro ⟨_, he, hw⟩
    cases hw with
    | directive ht =>
      cases he
      simp [item, ht]
    | empty ht =>
      cases he
      simp [item, ht]
    | @precision t w ht hw =>
      cases he
      rw [item_precision ht]
      exact bind_eq_ok.mpr ⟨rest, skipStatement_eq_ok.mpr ⟨w, rfl, hw⟩, rfl⟩
    | @declaration q n w word _ hq hnames hp hname hw =>
      simp only [List.append_assoc, List.cons_append] at he
      obtain ⟨hi, hprecision⟩ := hq.first hnames he
      have hno : ¬ first.isWord "precision" := by
        intro h
        obtain ⟨hnil, rfl⟩ := hprecision h
        exact hp hnil h
      rw [item_declaration hi hno]
      obtain ⟨x, v, rfl⟩ := hw.starts
      refine bind_eq_ok.mpr ⟨(word, n ++ (x :: v ++ rest)),
        typeWord_eq_ok.mpr ⟨q, he, hq, hnames⟩, ?_⟩
      rw [(structureName_append.mpr hname).eq]
      exact afterType_eq_ok.mpr ⟨x :: v, rfl, hw⟩

theorem Item.starts {w : List Token} {found : Option Signature} (h : Item w found) :
    ∃ x v, w = x :: v := by
  cases h with
  | directive _ => exact ⟨_, _, rfl⟩
  | empty _ => exact ⟨_, _, rfl⟩
  | precision _ _ => exact ⟨_, _, rfl⟩
  | declaration _ _ _ _ _ => exact List.exists_cons_of_ne_nil (by simp)

/-- The definitions of the supported functions. -/
def supported (signatures : List Signature) : List Definition :=
  (signatures.filter Signature.isSupported).map Signature.toDefinition

theorem supported_cons {s : Signature} (h : s.isSupported) (later : List Signature) :
    supported (s :: later) = s.toDefinition :: supported later := by
  simp [supported, h]

theorem supported_skip {s : Signature} (h : ¬ s.isSupported) (later : List Signature) :
    supported (s :: later) = supported later := by
  simp [supported, h]

theorem items_nil {signatures : List Signature} : Items [] signatures ↔ signatures = [] := by
  constructor
  · intro h
    generalize hw : ([] : List Token) = w at h
    cases h with
    | nil => rfl
    | cons hi _ =>
      obtain ⟨x, v, rfl⟩ := hi.starts
      simp at hw
  · rintro rfl
    exact .nil

/-- The first item and what it stands for are found by reading it. -/
theorem items_cons {first : Token} {found : Option Signature} {signatures : List Signature}
    (h : item ending first tokens = .ok (found, rest)) :
    Items (first :: tokens) signatures ↔
      ∃ later, Items rest later ∧ signatures = found.toList ++ later := by
  constructor
  · intro hitems
    generalize hw : first :: tokens = w at hitems
    cases hitems with
    | nil => cases hw
    | @cons w v found' later hi hv =>
      cases h.symm.trans (item_eq_ok.mpr ⟨w, hw, hi⟩)
      exact ⟨later, hv, rfl⟩
  · rintro ⟨later, hlater, rfl⟩
    obtain ⟨w, he, hw⟩ := item_eq_ok.mp h
    rw [he]
    exact .cons hw hlater

theorem item_shortens {first : Token} {found : Option Signature}
    (h : item ending first tokens = .ok (found, rest)) : rest.length ≤ tokens.length := by
  obtain ⟨w, he, hw⟩ := item_eq_ok.mp h
  obtain ⟨x, v, rfl⟩ := hw.starts
  obtain ⟨_, rfl⟩ := List.cons.inj he
  simp

theorem not_items_of_error {first : Token} {signatures : List Signature} {error : SyntaxError}
    (h : item ending first tokens = .error error) : ¬ Items (first :: tokens) signatures := by
  intro hitems
  generalize hw : first :: tokens = w at hitems
  cases hitems with
  | nil => cases hw
  | cons hi _ => cases h.symm.trans (item_eq_ok.mpr ⟨_, hw, hi⟩)

theorem mapM_ok_cons {α : Type} {a : α} {xs : List (Except SyntaxError α)} {as : List α} :
    (Except.ok a :: xs).mapM id = .ok as ↔ ∃ later, xs.mapM id = .ok later ∧ as = a :: later := by
  rw [mapM_cons_eq_ok]
  simp

theorem extractItems_nil {n : Nat} {definitions : List Definition} :
    (extractItems ending n []).mapM id = .ok definitions ↔
      ending.error = none ∧ ∃ signatures, Items [] signatures ∧
        definitions = supported signatures := by
  simp only [items_nil, exists_eq_left, extractItems]
  cases ending.error with
  | none =>
    constructor
    · rintro ⟨⟩
      exact ⟨rfl, rfl⟩
    · rintro ⟨_, rfl⟩
      rfl
  | some e =>
    constructor
    · rintro ⟨⟩
    · rintro ⟨⟨⟩, _⟩

/-- **All items.** -/
theorem extractItems_eq_ok {n : Nat} {definitions : List Definition} (hn : tokens.length ≤ n) :
    (extractItems ending n tokens).mapM id = .ok definitions ↔
      ending.error = none ∧ ∃ signatures, Items tokens signatures ∧
        definitions = supported signatures := by
  induction n generalizing tokens definitions with
  | zero =>
    obtain rfl := List.eq_nil_of_length_eq_zero (Nat.le_zero.mp hn)
    exact extractItems_nil
  | succ n ih =>
    rcases tokens with _ | ⟨first, tokens⟩
    · exact extractItems_nil
    rw [extractItems]
    cases hitem : item ending first tokens with
    | error e =>
      constructor
      · rintro ⟨⟩
      · rintro ⟨_, _, h, _⟩
        exact absurd h (not_items_of_error hitem)
    | ok left =>
      obtain ⟨found, rest⟩ := left
      have hlength := item_shortens hitem
      have hrest : rest.length ≤ n := by
        rw [List.length_cons] at hn
        omega
      simp only [items_cons hitem]
      cases found with
      | none => simp [ih hrest]
      | some s =>
        by_cases hs : s.isSupported
        · simp only [hs, ↓reduceIte, mapM_ok_cons, ih hrest]
          constructor
          · rintro ⟨_, ⟨herror, later, hlater, rfl⟩, rfl⟩
            exact ⟨herror, _, ⟨later, hlater, rfl⟩, (supported_cons hs later).symm⟩
          · rintro ⟨herror, _, ⟨later, hlater, rfl⟩, rfl⟩
            exact ⟨_, ⟨herror, later, hlater, rfl⟩, supported_cons hs later⟩
        · simp only [hs, Bool.false_eq_true, ↓reduceIte, ih hrest]
          constructor
          · rintro ⟨herror, later, hlater, rfl⟩
            exact ⟨herror, _, ⟨later, hlater, rfl⟩, (supported_skip hs later).symm⟩
          · rintro ⟨herror, _, ⟨later, hlater, rfl⟩, rfl⟩
            exact ⟨herror, later, hlater, supported_skip hs later⟩

/-- **The extraction accepts its grammar.** It succeeds exactly when the lexer reads
the whole text and the tokens are a sequence of items. The result is then made of
the signatures of these items, in order, as far as they return nothing, a number or a
vector with at most three components. What they take are the inputs, and what they
return is an output with the name of the function. -/
theorem definitions_eq_ok_iff (source : String) (found : List Definition) :
    definitions source = .ok found ↔
      ∃ tokens signatures, Lexer.Reads { rest := source.toList } tokens ∧
        Items tokens signatures ∧
        found = (signatures.filter fun s =>
            ["void", "float", "vec2", "vec3"].contains s.returnType).map fun s =>
          { inputs := s.parameters
            outputs :=
              if s.returnType = "void" then [] else [⟨.ofName s.returnType, s.name⟩] } := by
  rw [definitions, extract, extractItems_eq_ok (Nat.le_refl _)]
  constructor
  · rintro ⟨herror, signatures, hitems, rfl⟩
    exact ⟨_, signatures, reads_iff_lex.mpr ⟨herror, rfl⟩, hitems, rfl⟩
  · rintro ⟨_, signatures, hreads, hitems, rfl⟩
    obtain ⟨herror, rfl⟩ := reads_iff_lex.mp hreads
    exact ⟨herror, signatures, hitems, rfl⟩

/-- Functions that return a number, nothing and a vector, and one with a matrix, which is left
out. -/
theorem definitions_eq_ok_iff_returns :
    let source := "uniform float t;\nfloat f(vec2 p, float k) \x7b return k * p.x; \x7d\n" ++
      "void g();\nmat2 m(void);\nvec3 h(const in vec3 c) \x7b return t * c; \x7d\n"
    definitions source = .ok
        [⟨[⟨.vec2, "p"⟩, ⟨.float, "k"⟩], [⟨.float, "f"⟩]⟩, ⟨[], []⟩,
          ⟨[⟨.vec3, "c"⟩], [⟨.vec3, "h"⟩]⟩] ∧
      ∃ tokens signatures, Lexer.Reads { rest := source.toList } tokens ∧
        Items tokens signatures ∧
        (signatures.filter fun s =>
            ["void", "float", "vec2", "vec3"].contains s.returnType).map Signature.parameters =
          [[⟨.vec2, "p"⟩, ⟨.float, "k"⟩], [], [⟨.vec3, "c"⟩]] := by
  intro source
  have hfound : definitions source = .ok
      [⟨[⟨.vec2, "p"⟩, ⟨.float, "k"⟩], [⟨.float, "f"⟩]⟩, ⟨[], []⟩,
        ⟨[⟨.vec3, "c"⟩], [⟨.vec3, "h"⟩]⟩] := by decide +kernel
  obtain ⟨tokens, signatures, hreads, hitems, hshapes⟩ := (definitions_eq_ok_iff source _).mp hfound
  have hinputs := congrArg (List.map Definition.inputs) hshapes
  rw [List.map_map] at hinputs
  exact ⟨hfound, tokens, signatures, hreads, hitems, hinputs.symm⟩

end ShaderGraph.Glsl
