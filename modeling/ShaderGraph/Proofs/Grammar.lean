import ShaderGraph.Proofs.Brackets

/-!
The grammar of the top level of a source text, as words of tokens and what they
stand for. An item is a directive, an empty declaration, a precision statement or
a declaration; only the declaration of a function stands for something.
-/

namespace ShaderGraph.Glsl

namespace Token

/-- An identifier that a declaration can take as its type. -/
def namesType (t : Token) : Bool := t.isIdentifier && !t.isQualifier && !t.isWord "layout"

/-- A token that can stand in the size of an array. -/
def inSize (t : Token) : Bool := t.kind != .punctuation || sizeOperators.contains t.text

end Token

/-- A bracket of this kind with all that is inside it. -/
def Group (bracket : String) (w : List Token) : Prop :=
  ∃ o u c, w = o :: (u ++ [c]) ∧ o.isPunctuation bracket ∧ o.closedBy c ∧
    Nested (fun _ => true) u

inductive Qualifiers : List Token → Prop
  | nil : Qualifiers []
  | word {t : Token} {w : List Token} : t.isQualifier → Qualifiers w → Qualifiers (t :: w)
  | layout {t : Token} {g w : List Token} :
      t.isWord "layout" → Group "(" g → Qualifiers w → Qualifiers (t :: (g ++ w))

/-- Array suffixes. -/
inductive Suffixes : List Token → Prop
  | nil : Suffixes []
  | cons {o c : Token} {size w : List Token} :
      o.isPunctuation "[" → (∀ t ∈ size, t.inSize) → c.isPunctuation "]" → Suffixes w →
        Suffixes (o :: (size ++ c :: w))

/-- The text of a word without anything between its tokens. -/
def spelling (w : List Token) : String := String.join (w.map Token.text)

/-- Nothing, or an equals sign and a default value. -/
inductive Default : List Token → Prop
  | none : Default []
  | value {e : Token} {u : List Token} : e.isPunctuation "=" →
      Nested (fun t => !t.isPunctuation "," && !t.isPunctuation ";") u → Default (e :: u)

/-- A parameter. Array suffixes belong to the type, wherever they stand. -/
inductive Parameter : List Token → Socket → Prop
  | mk {q s s' d : List Token} {type name : Token} :
      Qualifiers q → type.namesType → Suffixes s → name.isIdentifier → Suffixes s' → Default d →
        Parameter (q ++ type :: (s ++ name :: (s' ++ d)))
          ⟨.ofName (type.text ++ spelling s ++ spelling s'), name.text⟩

/-- One parameter or more, with commas between them. -/
inductive ParameterList : List Token → List Socket → Prop
  | one {w : List Token} {s : Socket} : Parameter w s → ParameterList w [s]
  | cons {w v : List Token} {comma : Token} {s : Socket} {ss : List Socket} :
      Parameter w s → comma.isPunctuation "," → ParameterList v ss →
        ParameterList (w ++ comma :: v) (s :: ss)

/-- What can stand between the parentheses of a header. -/
inductive Parameters : List Token → List Socket → Prop
  | nothing : Parameters [] []
  | void {t : Token} : t.isWord "void" → Parameters [t] []
  | list {w : List Token} {ss : List Socket} : ParameterList w ss → Parameters w ss

/-- The end of a function: a semicolon, or a body. -/
inductive HeaderEnd : List Token → Bool → Prop
  | prototype {t : Token} : t.isPunctuation ";" → HeaderEnd [t] false
  | body {w : List Token} : Group "\x7b" w → HeaderEnd w true

/-- What can follow the type of a declaration: a block, a variable or a function. -/
inductive Declarator (type : Token) : List Token → Option Signature → Prop
  | block {g w : List Token} : Group "\x7b" g → Statement w → Declarator type (g ++ w) none
  | global {s w : List Token} {name : Token} :
      Suffixes s → name.isIdentifier → Statement w → (∀ t ∈ w.head?, ¬ t.isPunctuation "(") →
        Declarator type (s ++ name :: w) none
  | function {s p e : List Token} {name o c : Token} {ss : List Socket} {hasBody : Bool} :
      Suffixes s → name.isIdentifier → o.isPunctuation "(" → Parameters p ss →
        c.isPunctuation ")" → HeaderEnd e hasBody →
        Declarator type (s ++ name :: o :: (p ++ c :: e))
          (some ⟨type.text ++ spelling s, name.text, ss, hasBody⟩)

/-- The name of a structure: an identifier right after the word `struct` is one
whatever follows. -/
inductive StructureName (type : Token) : List Token → List Token → Prop
  | name {t : Token} {w : List Token} :
      type.isWord "struct" → t.isIdentifier → StructureName type [t] w
  | none {w : List Token} :
      (type.isWord "struct" → ∀ t ∈ w.head?, ¬ t.isIdentifier) → StructureName type [] w

inductive Item : List Token → Option Signature → Prop
  | directive {t : Token} : t.kind = .directive → Item [t] none
  | empty {t : Token} : t.isPunctuation ";" → Item [t] none
  | precision {t : Token} {w : List Token} :
      t.isWord "precision" → Statement w → Item (t :: w) none
  | declaration {q n w : List Token} {type : Token} {found : Option Signature} :
      Qualifiers q → type.namesType → (q = [] → ¬ type.isWord "precision") →
        StructureName type n w → Declarator type w found →
        Item (q ++ type :: (n ++ w)) found

/-- A source text, with the headers of its functions in order. -/
inductive Items : List Token → List Signature → Prop
  | nil : Items [] []
  | cons {w v : List Token} {found : Option Signature} {later : List Signature} :
      Item w found → Items v later → Items (w ++ v) (found.toList ++ later)

end ShaderGraph.Glsl
