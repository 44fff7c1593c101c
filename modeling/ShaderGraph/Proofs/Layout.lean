import ShaderGraph.Proofs.Balance
import ShaderGraph.Proofs.Scoping

/-!
The layout of a fragment shader is source text that the extraction accepts. A line of the
head declares something and is skipped, an imported function is found as in its own text,
and the main function is found whatever its body is, since the body is balanced
(`definitions_renderFragment`).
-/

namespace ShaderGraph

open Glsl

/-- A number, or a vector. -/
def DataType.IsBasic (type : DataType) : Prop := type ∈ [.float, .vec2, .vec3, .vec4]

instance (type : DataType) : Decidable type.IsBasic :=
  inferInstanceAs (Decidable (type ∈ [.float, .vec2, .vec3, .vec4]))

theorem DataType.IsBasic.isName {type : DataType} (h : type.IsBasic) : isName type.name := by
  have hall : ∀ type ∈ [DataType.float, .vec2, .vec3, .vec4], Glsl.isName type.name := by decide
  exact hall type h

/-! ## Balanced texts -/

namespace Text

/-- Something in parentheses, with more before and after. -/
theorem balanced_enclosed {opening inner closing : String} {before after : List Char}
    (hopening : opening.toList = before ++ ['(']) (hclosing : closing.toList = ')' :: after)
    (hbefore : Balanced before) (hinner : Balanced inner.toList) (hafter : Balanced after) :
    Balanced (opening ++ inner ++ closing).toList := by
  have htext : (opening ++ inner ++ closing).toList =
      before ++ '(' :: (inner.toList ++ [')']) ++ after := by
    rw [String.toList_append, String.toList_append, hopening, hclosing]
    simp
  rw [htext]
  exact (hbefore.append hinner.parentheses).append hafter

theorem balanced_call {f inner : String} (hf : Balanced f.toList) (hinner : Balanced inner.toList) :
    Balanced (f ++ "(" ++ inner ++ ")").toList :=
  balanced_enclosed String.toList_append rfl hf hinner .nil

theorem balanced_intercalate {texts : List String} (h : ∀ text ∈ texts, Balanced text.toList) :
    Balanced (", ".intercalate texts).toList := by
  have hcomma : Balanced ", ".toList := .of_plain (by decide)
  rw [String.toList_intercalate]
  induction texts with
  | nil => exact .nil
  | cons text texts ih =>
    obtain ⟨htext, hrest⟩ := List.forall_mem_cons.mp h
    cases texts with
    | nil => simpa using htext
    | cons next texts =>
      rw [List.map_cons, List.map_cons, List.intercalate_cons_cons]
      exact (htext.append hcomma).append (ih hrest)

theorem balanced_join {texts : List String} (h : ∀ text ∈ texts, Balanced text.toList) :
    Balanced (String.join texts).toList := by
  induction texts with
  | nil => exact .nil
  | cons text texts ih =>
    obtain ⟨htext, hrest⟩ := List.forall_mem_cons.mp h
    rw [String.join_cons, String.toList_append]
    exact htext.append (ih hrest)

end Text

/-- A name, or a constant in which brackets match. -/
def Operand.Printable : Operand → Prop
  | reference name => isName name
  | constant text => Balanced text.toList

/-- An expression that is made from names and constants. -/
def Expression.Printable : Expression → Prop
  | operand o => o.Printable
  | operation operator left right =>
    (operator = "*" ∨ operator = "+") ∧ isName left ∧ isName right
  | construct type components => type.IsBasic ∧ ∀ o ∈ components, o.Printable
  | call function arguments => isName function ∧ ∀ a ∈ arguments, isName a
  | verbatim _ => False

theorem Operand.Printable.balanced {o : Operand} (h : o.Printable) : Balanced o.text.toList := by
  cases o with
  | reference name => exact .name h
  | constant text => exact h

theorem Expression.Printable.balanced {e : Expression} (h : e.Printable) :
    Balanced e.text.toList := by
  cases e with
  | operand o => exact Operand.Printable.balanced h
  | operation operator left right =>
    obtain ⟨hop, hleft, hright⟩ := h
    have hspace : Balanced " ".toList := .of_plain (by decide)
    have hoperator : Balanced operator.toList := by
      rcases hop with rfl | rfl
      · exact .of_plain (by decide)
      · exact .of_plain (by decide)
    simp only [text, String.toList_append]
    exact ((((Balanced.name hleft).append hspace).append hoperator).append hspace).append
      (.name hright)
  | construct type components =>
    refine Text.balanced_call (.name h.1.isName) (Text.balanced_intercalate ?_)
    intro text ht
    obtain ⟨o, ho, rfl⟩ := List.mem_map.mp ht
    exact (h.2 o ho).balanced
  | call function arguments =>
    exact Text.balanced_call (.name h.1) (Text.balanced_intercalate fun a ha => .name (h.2 a ha))
  | verbatim text => exact h.elim

/-- An instruction whose text, imports aside, is made from names of the language. -/
structure Instruction.Printable (i : Instruction) : Prop where
  name : isName i.name
  type : i.dataType.IsBasic
  value : i.kind = .assign → Balanced i.valueText.toList

theorem Instruction.Printable.bodyText {i : Instruction} (h : i.Printable) :
    Balanced i.bodyText.toList := by
  unfold Instruction.bodyText
  split
  · rename_i hk
    have hindent : Balanced "    ".toList := .of_plain (by decide)
    have hspace : Balanced " ".toList := .of_plain (by decide)
    have hequals : Balanced " = ".toList := .of_plain (by decide)
    have hend : Balanced ";\n".toList := .of_plain (by decide)
    simp only [String.toList_append]
    exact (((((hindent.append (.name h.type.isName)).append hspace).append
      (.name h.name)).append hequals).append (h.value hk)).append hend
  · exact .nil

theorem showLine_balanced {color alpha : Expression} (hcolor : Balanced color.text.toList)
    (halpha : Balanced alpha.text.toList) : Balanced (showLine color alpha).toList := by
  have hstart : Balanced "    gl_FragColor = vec4".toList := .of_plain (by decide)
  have hcomma : Balanced ", ".toList := .of_plain (by decide)
  have hend : Balanced ";\n".toList := .of_plain (by decide)
  have hinner : Balanced (color.text ++ ", " ++ alpha.text).toList := by
    simp only [String.toList_append]
    exact (hcolor.append hcomma).append halpha
  have hline : showLine color alpha =
      "    gl_FragColor = vec4(" ++ (color.text ++ ", " ++ alpha.text) ++ ");\n" := by
    unfold showLine
    simp only [String.append_assoc]
  rw [hline]
  exact Text.balanced_enclosed (by decide) (by decide) hstart hinner hend

/-! ## Lines of the head -/

theorem Glsl.Token.plain_of_isIdentifier {t : Token} (h : t.isIdentifier) :
    ¬ t.opens ∧ ¬ t.closes := by
  simp [opens, closes, not_isPunctuation_of_isIdentifier h]

/-- A declaration of three words is an item that is skipped, whether the first of them is a
qualifier or stands where the type is expected. -/
theorem items_line {word type name mark : Token}
    (hword : word.isQualifier ∨
      word.namesType ∧ ¬ word.isWord "struct" ∧ ¬ word.isWord "precision")
    (htype : type.namesType) (hstruct : ¬ type.isWord "struct") (hname : name.isIdentifier)
    (hmark : mark.isPunctuation ";") : Items [word, type, name, mark] [] := by
  have hidentifier := (Token.namesType_iff.mp htype).1
  have hitem : Item [word, type, name, mark] none := by
    rcases hword with hq | ⟨hnames, hno, hprecision⟩
    · have hhead : ∀ t ∈ [mark].head?, ¬ t.isPunctuation "(" := by
        intro t ht hparen
        cases ht
        exact absurd (Token.isPunctuation_unique hmark hparen) (by decide)
      have hdeclarator : Declarator type ([] ++ name :: [mark]) none :=
        .global .nil hname ⟨[], mark, rfl, .nil, hmark⟩ hhead
      exact .declaration (.word hq .nil) htype (by simp) (.none fun h => absurd h hstruct)
        hdeclarator
    · obtain ⟨hopens, hcloses⟩ := Token.plain_of_isIdentifier hname
      have hfree : (!name.isPunctuation ";") = true := by
        simp [Token.not_isPunctuation_of_isIdentifier hname]
      have hhead : ∀ t ∈ [name, mark].head?, ¬ t.isPunctuation "(" := by
        intro t ht
        cases ht
        exact Token.not_isPunctuation_of_isIdentifier hname
      have hdeclarator : Declarator word ([] ++ type :: [name, mark]) none :=
        .global .nil hidentifier
          ⟨[name], mark, rfl, .plain hopens hcloses hfree .nil, hmark⟩ hhead
      exact .declaration .nil hnames (fun _ => hprecision) (.none fun h => absurd h hno)
        hdeclarator
  exact .cons hitem .nil

theorem DataType.IsBasic.namesType {type : DataType} (h : type.IsBasic) {t : Token}
    (hk : t.kind = .identifier) (ht : t.text = type.name) :
    t.namesType ∧ ¬ t.isWord "struct" := by
  have hall : ∀ type ∈ [DataType.float, .vec2, .vec3, .vec4],
      type.name ∉ "layout" :: qualifiers ∧ type.name ≠ "struct" := by decide
  obtain ⟨hword, hstruct⟩ := hall type h
  rw [← ht] at hword hstruct
  exact ⟨Token.namesType_of_text hk hword, Token.not_isWord_of_text hstruct⟩

/-- **A line of the head** holds no function. -/
theorem definitions_line {word name : String} {type : DataType}
    (hword : word ∈ ["uniform", "varying", "reassign"]) (htype : type.IsBasic)
    (hname : isName name) :
    definitions (word ++ " " ++ type.name ++ " " ++ name ++ ";") = .ok [] := by
  have hwords : ∀ word ∈ ["uniform", "varying", "reassign"], isName word ∧
      (word ∈ qualifiers ∨
        word ∉ "layout" :: qualifiers ∧ word ≠ "struct" ∧ word ≠ "precision") := by decide
  obtain ⟨hisName, hkind⟩ := hwords word hword
  have htext : (word ++ " " ++ type.name ++ " " ++ name ++ ";").toList =
      word.toList ++ ' ' :: (type.name.toList ++ ' ' :: (name.toList ++ [';'])) := by
    simp [String.toList_append]
  have hyields : Yields (word ++ " " ++ type.name ++ " " ++ name ++ ";").toList (Items · []) := by
    rw [htext]
    refine .word hisName rfl (.blank (by decide) (.word htype.isName rfl
      (.blank (by decide) (.word hname rfl (.mark (by decide) (.nil ?_))))))
    intro mark hmark last hlast _ second hsecond htype' first hfirst hword'
    obtain ⟨hnames, hstruct⟩ := htype.namesType hsecond htype'
    refine items_line ?_ hnames hstruct (by simp [Token.isIdentifier, hlast]) hmark
    rcases hkind with hq | ⟨hno, hs, hp⟩
    · exact .inl (by simp [Token.isQualifier, Token.isIdentifier, hfirst, hword', hq])
    · rw [← hword'] at hno hs hp
      exact .inr ⟨Token.namesType_of_text hfirst hno, Token.not_isWord_of_text hs,
        Token.not_isWord_of_text hp⟩
  exact definitions_of_yields hyields

/-! ## The main function -/

theorem items_main {type name o c brace : Token} {body : List Token}
    (htype : type.namesType) (hplain : ¬ type.isWord "struct" ∧ ¬ type.isWord "precision")
    (hname : name.isIdentifier) (ho : o.isPunctuation "(") (hc : c.isPunctuation ")")
    (hbrace : brace.isPunctuation "\x7b") (hbody : Closing (· = []) [brace] body) :
    Items (type :: name :: o :: c :: brace :: body) [⟨type.text, name.text, [], true⟩] := by
  obtain ⟨inner, last, rest, rfl, hinner, hlast, hend⟩ := hbody
  cases hend
  have hgroup : Group "\x7b" (brace :: (inner ++ [last])) :=
    ⟨brace, inner, last, rfl, hbrace, hlast, hinner⟩
  have hdeclarator : Declarator type ([] ++ name :: o :: ([] ++ c :: (brace :: (inner ++ [last]))))
      (some ⟨type.text ++ spelling [], name.text, [], true⟩) :=
    .function .nil hname ho .nothing hc (.body hgroup)
  have hitem : Item ([] ++ type :: ([] ++ _)) _ :=
    .declaration .nil htype (fun _ => hplain.2) (.none fun h => absurd h hplain.1) hdeclarator
  have hall := Items.cons hitem .nil
  simpa [spelling] using hall

/-- **The main function** is found, whatever its body does. -/
theorem definitions_main {body : String} (h : Balanced body.toList) :
    definitions ("void main() \x7b\n" ++ body ++ "\x7d\n") = .ok [⟨[], []⟩] := by
  have htext : ("void main() \x7b\n" ++ body ++ "\x7d\n").toList =
      "void".toList ++ ' ' :: ("main".toList ++ '(' :: ')' :: ' ' :: '\x7b' ::
        '\n' :: (body.toList ++ ['\x7d', '\n'])) := by
    simp [String.toList_append]
  have hsafe : ∀ c ∈ body.toList ++ ['\x7d', '\n'], isSafe c := by
    intro c hc
    rcases List.mem_append.mp hc with hc | hc
    · exact h.safe c hc
    · rcases List.mem_pair.mp hc with rfl | rfl <;> decide
  have hend : Closes ['\x7d'] ['\x7d', '\n'] := ⟨rfl, List.forall_mem_singleton.mpr rfl⟩
  have hclosing := yields_closing hsafe (h.closes '\x7d' [] _ hend)
  have hyields : Yields ("void main() \x7b\n" ++ body ++ "\x7d\n").toList
      (Items · [⟨"void", "main", [], true⟩]) := by
    rw [htext]
    refine .word (by decide) rfl (.blank (by decide) (.word (by decide) rfl
      (.mark (by decide) (.mark (by decide) (.blank (by decide) (.mark (by decide)
        (.blank (by decide) (hclosing.mono ?_))))))))
    intro tokens hbody brace hbrace c hc o ho name hname htname type htype httype
    have hnames : type.namesType := Token.namesType_of_text htype (by rw [httype]; decide)
    have hplain : ¬ type.isWord "struct" ∧ ¬ type.isWord "precision" :=
      ⟨Token.not_isWord_of_text (by rw [httype]; decide),
        Token.not_isWord_of_text (by rw [httype]; decide)⟩
    have hidentifier : name.isIdentifier := by simp [Token.isIdentifier, hname]
    have hopened : Opened [brace] ['\x7d'] := by
      simp only [Token.isPunctuation, Bool.and_eq_true, beq_iff_eq] at hbrace
      exact congrArg (List.cons · []) (Token.opens_of_closerOf? hbrace.1 hbrace.2 rfl).2
    have hitems := items_main hnames hplain hidentifier ho hc hbrace (hbody [brace] hopened)
    rwa [httype, htname] at hitems
  exact definitions_of_yields hyields

/-! ## The whole text -/

/-- The source of an imported function. -/
def Instruction.imported? (i : Instruction) : Option String :=
  if i.kind = .imported then some i.valueText else none

/-- A line of the head ends with its line. -/
theorem goesOn_line (text : String) : goesOn false (text ++ ";").toList = false := by
  have hsuffix : [';'] <:+ (text ++ ";").toList := ⟨text.toList, by simp [String.toList_append]⟩
  exact goesOn_of_last hsuffix (by decide) (by decide)

theorem definitions_headerText {i : Instruction} (h : i.Printable) (himported : i.kind ≠ .imported)
    {below : String} {more : List Definition} (hbelow : definitions below = .ok more) :
    definitions (i.headerText ++ below) = .ok more := by
  by_cases hassign : i.kind = .assign
  · have hheader : i.headerText = "" := by simp [Instruction.headerText, hassign]
    rwa [hheader, String.empty_append]
  · have hword : i.kind.name ∈ ["uniform", "varying", "reassign"] := by
      cases hk : i.kind with
      | assign => exact absurd hk hassign
      | imported => exact absurd hk himported
      | reassign => decide
      | uniform => decide
      | varying => decide
    have hheader : i.headerText =
        i.kind.name ++ " " ++ i.dataType.name ++ " " ++ i.name ++ ";" ++ "\n" := by
      unfold Instruction.headerText
      split
      · contradiction
      · contradiction
      · simp only [String.append_assoc, String.reduceAppend]
    rw [hheader]
    exact definitions_newline (goesOn_line _) (definitions_line hword h.type h.name) hbelow

/-- **The head of a shader** adds the functions that it imports. -/
theorem definitions_header {is : List Instruction} {found : List (List Definition)}
    {below : String} {more : List Definition} (hprint : ∀ i ∈ is, i.Printable)
    (hcodes : (is.filterMap Instruction.imported?).mapM definitions = .ok found)
    (hlast : ∀ code ∈ is.filterMap Instruction.imported?,
      (Text.trimEnd code).toList.getLast? ≠ some '\\')
    (hbelow : definitions below = .ok more) :
    definitions (String.join (is.map Instruction.headerText) ++ below) =
      .ok (found.flatten ++ more) := by
  -- an instruction adds whole lines, so the rest of the text starts on a line of its own
  induction is generalizing found with
  | nil =>
    cases hcodes
    simpa using hbelow
  | cons i is ih =>
    obtain ⟨hi, hrest⟩ := List.forall_mem_cons.mp hprint
    rw [List.map_cons, String.join_cons, String.append_assoc]
    by_cases himported : i.kind = .imported
    · have hcode : i.imported? = some i.valueText := by simp [Instruction.imported?, himported]
      have hheader : i.headerText = Text.trimEnd i.valueText ++ "\n" := by
        simp [Instruction.headerText, himported]
      rw [List.filterMap_cons_some hcode] at hcodes hlast
      obtain ⟨defs, later, hdefs, hlater, rfl⟩ := mapM_cons_eq_ok.mp hcodes
      obtain ⟨hfirst, hothers⟩ := List.forall_mem_cons.mp hlast
      rw [hheader, List.flatten_cons, List.append_assoc]
      exact definitions_newline (goesOn_trimEnd hfirst) (definitions_trimEnd hfirst hdefs)
        (ih hrest hlater hothers)
    · have hcode : i.imported? = none := by simp [Instruction.imported?, himported]
      rw [List.filterMap_cons_none hcode] at hcodes hlast
      exact definitions_headerText hi himported (ih hrest hcodes hlast)

/-- **A shader is accepted**: what is found are the functions that it imports, each as in its
own text, and the main function. -/
theorem definitions_renderFragment {is : List Instruction} {color alpha : Expression}
    {found : List (List Definition)} (hprint : ∀ i ∈ is, i.Printable)
    (hcolor : color.Printable) (halpha : alpha.Printable)
    (hcodes : (is.filterMap Instruction.imported?).mapM definitions = .ok found)
    (hlast : ∀ code ∈ is.filterMap Instruction.imported?,
      (Text.trimEnd code).toList.getLast? ≠ some '\\') :
    definitions (renderFragment is color alpha) = .ok (found.flatten ++ [⟨[], []⟩]) := by
  have hbodies : Balanced (String.join (is.map Instruction.bodyText)).toList := by
    refine Text.balanced_join ?_
    intro text ht
    obtain ⟨i, hi, rfl⟩ := List.mem_map.mp ht
    exact (hprint i hi).bodyText
  have hbody :
      Balanced (String.join (is.map Instruction.bodyText) ++ showLine color alpha).toList :=
    String.toList_append ▸ hbodies.append (showLine_balanced hcolor.balanced halpha.balanced)
  have htext : renderFragment is color alpha =
      String.join (is.map Instruction.headerText) ++ ("void main() \x7b\n" ++
        (String.join (is.map Instruction.bodyText) ++ showLine color alpha) ++ "\x7d\n") := by
    rw [renderFragment_eq]
    simp only [String.append_assoc]
  rw [htext]
  exact definitions_header hprint hcodes hlast (definitions_main hbody)

end ShaderGraph
