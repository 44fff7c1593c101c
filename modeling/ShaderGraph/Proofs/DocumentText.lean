import ShaderGraph.Proofs.Reading

/-!
The text of a value is read as the value. The parser sees it as a document
(`documentOf`), with brackets that close and nothing behind them
(`Fits.parse_pretty`), and the value is read off that document again if its members
are in order (`Ordered.value_documentOf`). The parser is bounded by a count of steps;
two for each character of the text are enough (`Reads`).
-/

namespace ShaderGraph.Json

/-! ## Strings -/

theorem unit?_hexDigits : ∀ n < 0x20, unit? '0' '0' (hexDigit (n / 16)) (hexDigit n) = some n := by
  decide

section StringRest

variable (done rest : List Char)

theorem stringRest_quote :
    stringRest none false done ('"' :: rest) = .ok (some (String.ofList done.reverse), rest) := by
  rw [stringRest.eq_def]
  rfl

theorem stringRest_escape {e c : Char} (he : e ≠ 'u') (hc : simpleEscape? e = some c) :
    stringRest none false done ('\\' :: e :: rest) = stringRest none false (c :: done) rest := by
  rw [stringRest.eq_def]
  simp [he, hc]

theorem stringRest_unit {h₁ h₂ h₃ h₄ : Char} {n : Nat} (hn : unit? h₁ h₂ h₃ h₄ = some n)
    (hhigh : isHighHalf n = false) (hlow : isLowHalf n = false) :
    stringRest none false done ('\\' :: 'u' :: h₁ :: h₂ :: h₃ :: h₄ :: rest) =
      stringRest none false (Char.ofNat n :: done) rest := by
  rw [stringRest.eq_def]
  simp [hn, hhigh, hlow]

theorem stringRest_plain {c : Char} (hquote : c ≠ '"') (hescape : c ≠ '\\')
    (hcontrol : ¬c.toNat < 0x20) :
    stringRest none false done (c :: rest) = stringRest none false (c :: done) rest := by
  rw [stringRest.eq_def]
  simp [hquote, hescape, hcontrol]

end StringRest

/-- An escaped character is read as the character. -/
theorem stringRest_escaped (c : Char) (done rest : List Char) :
    stringRest none false done (escaped c ++ rest) = stringRest none false (c :: done) rest := by
  unfold escaped
  split_ifs with hquote hescape hb hf hn hr ht hcontrol
  · subst hquote
    exact stringRest_escape done rest (by decide) rfl
  · subst hescape
    exact stringRest_escape done rest (by decide) rfl
  · subst hb
    exact stringRest_escape done rest (by decide) rfl
  · subst hf
    exact stringRest_escape done rest (by decide) rfl
  · subst hn
    exact stringRest_escape done rest (by decide) rfl
  · subst hr
    exact stringRest_escape done rest (by decide) rfl
  · subst ht
    exact stringRest_escape done rest (by decide) rfl
  · have hunit := stringRest_unit done rest (unit?_hexDigits c.toNat hcontrol)
    rw [Char.ofNat_toNat] at hunit
    refine hunit ?_ ?_
    · simp only [isHighHalf, Bool.and_eq_false_iff, decide_eq_false_iff_not]
      omega
    · simp only [isLowHalf, Bool.and_eq_false_iff, decide_eq_false_iff_not]
      omega
  · exact stringRest_plain done rest hquote hescape hcontrol

theorem stringRest_stringText (cs done rest : List Char) :
    stringRest none false done (cs.flatMap escaped ++ '"' :: rest) =
      .ok (some (String.ofList (done.reverse ++ cs)), rest) := by
  induction cs generalizing done with
  | nil => simp [stringRest_quote]
  | cons c cs ih =>
    rw [List.flatMap_cons, List.append_assoc, stringRest_escaped, ih]
    simp

theorem toList_stringText (s : String) :
    (stringText s).toList = '"' :: s.toList.flatMap escaped ++ ['"'] := by
  simp [stringText]

/-! ## Documents -/

mutual

/-- The document whose text is that of a value. -/
def documentOf : Json → Document
  | null => .null
  | bool b => .bool b
  | number n => .number (some n)
  | string s => .string (some s)
  | array items => .array (documentsOf items) none
  | object members => .object (memberDocumentsOf members) none

def documentsOf : List Json → List Document
  | [] => []
  | item :: items => documentOf item :: documentsOf items

def memberDocumentsOf : List (String × Json) → List (Option String × Document)
  | [] => []
  | (key, value) :: members => (some key, documentOf value) :: memberDocumentsOf members

end

theorem document_space (fuel depth : Nat) (text : List Char) :
    document fuel depth (' ' :: text) = document fuel depth text := by
  cases fuel with
  | zero => rfl
  | succ fuel => rw [document, document, show skipSpace (' ' :: text) = skipSpace text from rfl]

theorem ne_of_isDigit {c b : Char} (hc : c.isDigit = true) (hb : b.isDigit = false) : c ≠ b := by
  rintro rfl
  rw [hc] at hb
  cases hb

theorem isSpace_of_isDigit {c : Char} (h : c.isDigit = true) : isSpace c = false := by
  simp [isSpace, ne_of_isDigit h]

theorem document_number {n : Number} {fuel depth : Nat} (h : n.InRange) {rest : List Char}
    (hrest : EndsNumber rest) :
    document (fuel + 1) depth (n.text.toList ++ rest) = (.number (some n), rest) := by
  obtain ⟨negative, body, hspelling⟩ := h.spelling
  obtain ⟨c, more, hbody, hc⟩ := hspelling.starts
  have hread := hspelling.reads rest hrest
  rw [hspelling.text, document]
  cases negative with
  | true => simp [skipSpace, isSpace, hread, leaf]
  | false =>
    rw [hbody] at hread ⊢
    rw [List.cons_append] at hread
    have hne : ∀ b : Char, b.isDigit = false → c ≠ b := fun _ => ne_of_isDigit hc
    simp [skipSpace, isSpace_of_isDigit hc, hne '"' rfl, hne '[' rfl, hne '\x7b' rfl, hne '-' rfl,
      hc, hread, leaf]

theorem document_string (s : String) (fuel depth : Nat) (rest : List Char) :
    document (fuel + 1) depth ((stringText s).toList ++ rest) = (.string (some s), rest) := by
  rw [toList_stringText, document]
  simp [skipSpace, isSpace, stringRest_stringText, leaf]

/-! ## Lines in brackets -/

def spaces (level : Nat) : List Char := List.replicate (2 * level) ' '

theorem toList_indentation (level : Nat) : (indentation level).toList = spaces level :=
  String.toList_ofList

theorem skipSpace_line (level : Nat) (text : List Char) :
    skipSpace ('\n' :: (spaces level ++ text)) = skipSpace text := by
  unfold skipSpace spaces
  rw [List.dropWhile_cons_of_pos rfl, List.dropWhile_append_of_pos]
  intro c hc
  rw [List.eq_of_mem_replicate hc]
  rfl

/-- The lines after the first one, and the bracket that closes. -/
def linesAfter (close : Char) (level : Nat) : List (List Char) → List Char
  | [] => '\n' :: (spaces level ++ [close])
  | line :: lines => ',' :: '\n' :: (spaces (level + 1) ++ (line ++ linesAfter close level lines))

theorem intercalate_lines (close : Char) (level : Nat) (line : List Char)
    (lines : List (List Char)) :
    [',', '\n'].intercalate ((line :: lines).map (spaces (level + 1) ++ ·)) ++
        '\n' :: (spaces level ++ [close]) =
      spaces (level + 1) ++ (line ++ linesAfter close level lines) := by
  induction lines generalizing line with
  | nil => simp [linesAfter]
  | cons next lines ih =>
    rw [List.map_cons, List.map_cons, List.intercalate_cons_cons, ← List.map_cons,
      List.append_assoc, List.append_assoc, ih, linesAfter]
    simp

theorem toList_block_cons {opening closing : String} {start close : Char}
    (hopening : opening.toList = [start]) (hclosing : closing.toList = [close]) (level : Nat)
    (line : String) (lines : List String) :
    (block opening closing level (line :: lines)).toList =
      start :: '\n' :: (spaces (level + 1) ++ (line.toList ++
        linesAfter close level (lines.map String.toList))) := by
  have hinner : ((line :: lines).map (indentation (level + 1) ++ ·)).map String.toList =
      ((line :: lines).map String.toList).map (spaces (level + 1) ++ ·) := by
    simp [toList_indentation]
  have hlines := intercalate_lines close level line.toList (lines.map String.toList)
  rw [← List.map_cons, ← hinner] at hlines
  rw [← hlines]
  unfold block
  rw [if_neg (by simp)]
  simp only [String.toList_append, String.toList_intercalate, toList_indentation, hopening,
    hclosing, List.append_assoc]
  rfl

theorem toList_block_nil {opening closing : String} {start close : Char}
    (hopening : opening.toList = [start]) (hclosing : closing.toList = [close]) (level : Nat) :
    (block opening closing level []).toList = [start, close] := by
  show (opening ++ closing).toList = _
  rw [String.toList_append, hopening, hclosing]
  rfl

theorem endsNumber_linesAfter {close : Char} (level : Nat) (lines : List (List Char))
    (rest : List Char) : EndsNumber (linesAfter close level lines ++ rest) := by
  cases lines <;> · rintro c ⟨rfl⟩; decide

/-! ## Arrays and objects -/

/-- A text that starts a value, not with a space or a closing bracket. -/
def StartsValue (text : List Char) : Prop :=
  ∃ c more, text = c :: more ∧ isSpace c = false ∧ c ≠ ']'

section Lines

variable {fuel depth : Nat} (level : Nat) {text more rest : List Char}

theorem skipSpace_close {close : Char} (h : isSpace close = false) :
    skipSpace (linesAfter close level [] ++ rest) = close :: rest := by
  rw [linesAfter, List.cons_append, List.append_assoc, skipSpace_line]
  exact List.dropWhile_cons_of_neg (by simp [h])

theorem items_nil :
    items (fuel + 1) depth false (linesAfter ']' level [] ++ rest) = ([], none, rest) := by
  rw [items]
  simp only [skipSpace_close level (rfl : isSpace ']' = false)]
  rfl

/-- One item and those after it, the first of an array or not. -/
theorem items_cons {head : Document} {documents : List Document} (first : Bool)
    (htext : StartsValue text) (hhead : document fuel depth (text ++ more) = (head, more))
    (htail : items fuel depth false more = (documents, none, rest)) :
    items (fuel + 1) depth first
      ((if first then [] else [',']) ++ '\n' :: (spaces level ++ (text ++ more))) =
      (head :: documents, none, rest) := by
  obtain ⟨c, cs, rfl, hspace, hclose⟩ := htext
  have hskip : skipSpace ('\n' :: (spaces level ++ (c :: cs ++ more))) = c :: (cs ++ more) := by
    rw [skipSpace_line]
    exact List.dropWhile_cons_of_neg (by simp [hspace])
  rw [List.cons_append] at hhead
  rw [items]
  cases first with
  | true =>
    simp only [↓reduceIte, List.nil_append, hskip]
    simp [hclose, hhead, htail]
  | false =>
    have hcomma : ∀ text, skipSpace (',' :: text) = ',' :: text := fun _ => rfl
    simp only [Bool.false_eq_true, ↓reduceIte, List.singleton_append, hcomma, hskip]
    simp [hclose, hhead, htail]

/-- The text of a member, with a text for its value. -/
def memberText (key : String) (value : List Char) : List Char :=
  '"' :: (key.toList.flatMap escaped ++ '"' :: ':' :: ' ' :: value)

theorem members_nil :
    members (fuel + 1) depth false (linesAfter '\x7d' level [] ++ rest) = ([], none, rest) := by
  rw [members]
  simp only [skipSpace_close level (rfl : isSpace '\x7d' = false)]
  rfl

theorem members_cons {key : String} {head : Document}
    {documents : List (Option String × Document)} (first : Bool)
    (hhead : document fuel depth (text ++ more) = (head, more))
    (htail : members fuel depth false more = (documents, none, rest)) :
    members (fuel + 1) depth first
      ((if first then [] else [',']) ++ '\n' :: (spaces level ++ (memberText key text ++ more))) =
      ((some key, head) :: documents, none, rest) := by
  have hskip : skipSpace ('\n' :: (spaces level ++ (memberText key text ++ more))) =
      '"' :: (key.toList.flatMap escaped ++ '"' :: ':' :: ' ' :: (text ++ more)) := by
    rw [skipSpace_line, memberText, List.cons_append, List.append_assoc]
    rfl
  have hkey := stringRest_stringText key.toList [] (':' :: ' ' :: (text ++ more))
  rw [List.reverse_nil, List.nil_append, String.ofList_toList] at hkey
  have hcolon : ∀ text, skipSpace (':' :: text) = ':' :: text := fun _ => rfl
  rw [members]
  cases first with
  | true => simp [hskip, hkey, hcolon, document_space, hhead, htail]
  | false =>
    have hcomma : ∀ text, skipSpace (',' :: text) = ',' :: text := fun _ => rfl
    simp only [Bool.false_eq_true, ↓reduceIte, List.singleton_append, hcomma, hskip]
    simp [hkey, hcolon, document_space, hhead, htail]

end Lines

/-! ## Texts of values -/

def itemTexts (level : Nat) (items : List Json) : List (List Char) :=
  items.map fun item => (prettyAt level item).toList

def memberTexts (level : Nat) (members : List (String × Json)) : List (List Char) :=
  members.map fun m => memberText m.1 (prettyAt level m.2).toList

theorem toList_prettyItems (level : Nat) (items : List Json) :
    (prettyItems level items).map String.toList = itemTexts level items := by
  induction items with
  | nil => rfl
  | cons item items ih => rw [prettyItems, List.map_cons, ih, itemTexts, itemTexts, List.map_cons]

theorem toList_prettyMembers (level : Nat) (members : List (String × Json)) :
    (prettyMembers level members).map String.toList = memberTexts level members := by
  induction members with
  | nil => rfl
  | cons m members ih =>
    rw [prettyMembers, List.map_cons, ih, memberTexts, memberTexts, List.map_cons]
    simp [memberText, toList_stringText]

theorem toList_null (level : Nat) : (prettyAt level null).toList = 'n' :: ['u', 'l', 'l'] := by
  rw [prettyAt]
  rfl

theorem toList_true (level : Nat) :
    (prettyAt level (bool true)).toList = 't' :: ['r', 'u', 'e'] := by
  rw [prettyAt]
  rfl

theorem toList_false (level : Nat) :
    (prettyAt level (bool false)).toList = 'f' :: ['a', 'l', 's', 'e'] := by
  rw [prettyAt]
  rfl

theorem startsValue_of_cons {c : Char} {more : List Char} (hspace : isSpace c = false)
    (hclose : c ≠ ']') : StartsValue (c :: more) := ⟨c, more, rfl, hspace, hclose⟩

theorem Number.InRange.startsValue {n : Number} (h : n.InRange) : StartsValue n.text.toList := by
  obtain ⟨negative, body, hspelling⟩ := h.spelling
  obtain ⟨c, more, rfl, hc⟩ := hspelling.starts
  rw [hspelling.text]
  cases negative with
  | true => exact startsValue_of_cons rfl (by decide)
  | false => exact startsValue_of_cons (isSpace_of_isDigit hc) (ne_of_isDigit hc rfl)

theorem startsValue_block {opening closing : String} {start close : Char}
    (hopening : opening.toList = [start]) (hspace : isSpace start = false) (hclose : start ≠ ']')
    (hclosing : closing.toList = [close]) (level : Nat) (lines : List String) :
    StartsValue (block opening closing level lines).toList := by
  cases lines with
  | nil =>
    rw [toList_block_nil hopening hclosing]
    exact startsValue_of_cons hspace hclose
  | cons line lines =>
    rw [toList_block_cons hopening hclosing]
    exact startsValue_of_cons hspace hclose

theorem Fits.startsValue {room : Nat} {json : Json} (h : Fits room json) (level : Nat) :
    StartsValue (prettyAt level json).toList := by
  cases h with
  | null => exact ⟨'n', _, toList_null level, rfl, by decide⟩
  | bool b =>
    cases b with
    | true => exact ⟨'t', _, toList_true level, rfl, by decide⟩
    | false => exact ⟨'f', _, toList_false level, rfl, by decide⟩
  | number hn => exact hn.startsValue
  | string s =>
    rw [prettyAt, toList_stringText]
    exact startsValue_of_cons rfl (by decide)
  | array _ => exact startsValue_block rfl rfl (by decide) rfl level _
  | object _ => exact startsValue_block rfl rfl (by decide) rfl level _

/-! ## Reading them -/

/-- The text of a value is read as the document of the value, at a depth inside arrays and
objects. -/
def Reads (level depth : Nat) (json : Json) : Prop :=
  ∀ fuel rest, 2 * (prettyAt level json).toList.length ≤ fuel → EndsNumber rest →
    document fuel depth ((prettyAt level json).toList ++ rest) = (documentOf json, rest)

section Lines

variable {fuel depth level : Nat} {rest : List Char}

theorem items_lines {items : List Json}
    (h : ∀ item ∈ items, StartsValue (prettyAt (level + 1) item).toList ∧
      Reads (level + 1) depth item)
    (hfuel : 2 * (linesAfter ']' level (itemTexts (level + 1) items)).length ≤ fuel) :
    Json.items fuel depth false (linesAfter ']' level (itemTexts (level + 1) items) ++ rest) =
      (documentsOf items, none, rest) := by
  induction items generalizing fuel with
  | nil =>
    obtain ⟨fuel, rfl⟩ : ∃ n, fuel = n + 1 :=
      ⟨fuel - 1, by simp [itemTexts, linesAfter] at hfuel; omega⟩
    exact items_nil level
  | cons item items ih =>
    obtain ⟨⟨hstarts, hreads⟩, hitems⟩ := List.forall_mem_cons.mp h
    rw [show itemTexts (level + 1) (item :: items) =
      (prettyAt (level + 1) item).toList :: itemTexts (level + 1) items from rfl] at hfuel ⊢
    simp only [linesAfter, List.length_cons, List.length_append] at hfuel
    obtain ⟨fuel, rfl⟩ : ∃ n, fuel = n + 1 := ⟨fuel - 1, by omega⟩
    have htail := @ih fuel hitems (by omega)
    have hhead := hreads fuel (linesAfter ']' level (itemTexts (level + 1) items) ++ rest)
      (by omega) (endsNumber_linesAfter level _ rest)
    simpa [linesAfter, documentsOf] using items_cons (level + 1) false hstarts hhead htail

theorem members_lines {members : List (String × Json)}
    (h : ∀ m ∈ members, Reads (level + 1) depth m.2)
    (hfuel : 2 * (linesAfter '\x7d' level (memberTexts (level + 1) members)).length ≤ fuel) :
    Json.members fuel depth false
      (linesAfter '\x7d' level (memberTexts (level + 1) members) ++ rest) =
        (memberDocumentsOf members, none, rest) := by
  induction members generalizing fuel with
  | nil =>
    obtain ⟨fuel, rfl⟩ : ∃ n, fuel = n + 1 :=
      ⟨fuel - 1, by simp [memberTexts, linesAfter] at hfuel; omega⟩
    exact members_nil level
  | cons m members ih =>
    obtain ⟨hreads, hmembers⟩ := List.forall_mem_cons.mp h
    rw [show memberTexts (level + 1) (m :: members) =
      memberText m.1 (prettyAt (level + 1) m.2).toList :: memberTexts (level + 1) members from rfl]
      at hfuel ⊢
    simp only [linesAfter, List.length_cons, List.length_append, memberText] at hfuel
    obtain ⟨fuel, rfl⟩ : ∃ n, fuel = n + 1 := ⟨fuel - 1, by omega⟩
    have htail := @ih fuel hmembers (by omega)
    have hhead := hreads fuel (linesAfter '\x7d' level (memberTexts (level + 1) members) ++ rest)
      (by omega) (endsNumber_linesAfter level _ rest)
    simpa [linesAfter, memberDocumentsOf] using members_cons (level + 1) false hhead htail

end Lines

theorem nested_of_lt {depth : Nat} (h : depth < depthLimit) (document : Document) :
    nested depth document = document := if_neg (not_le.mpr h)

theorem reads_array {level depth : Nat} {items : List Json} (hdepth : depth < depthLimit)
    (h : ∀ item ∈ items, StartsValue (prettyAt (level + 1) item).toList ∧
      Reads (level + 1) (depth + 1) item) : Reads level depth (array items) := by
  intro fuel rest hfuel _
  have hopening : ("[" : String).toList = ['['] := rfl
  have hclosing : ("]" : String).toList = [']'] := rfl
  have hopen : ∀ text, skipSpace ('[' :: text) = '[' :: text := fun _ => rfl
  rw [prettyAt] at hfuel ⊢
  cases items with
  | nil =>
    rw [prettyItems, toList_block_nil hopening hclosing] at hfuel ⊢
    obtain ⟨fuel, rfl⟩ : ∃ n, fuel = n + 2 := ⟨fuel - 2, by simp at hfuel; omega⟩
    have hclose : ∀ text, skipSpace (']' :: text) = ']' :: text := fun _ => rfl
    rw [List.cons_append, document]
    simp [hopen, Json.items, hclose, nested_of_lt hdepth, documentOf, documentsOf]
  | cons item items =>
    obtain ⟨⟨hstarts, hreads⟩, hitems⟩ := List.forall_mem_cons.mp h
    rw [prettyItems, toList_block_cons hopening hclosing, toList_prettyItems] at hfuel ⊢
    simp only [List.length_cons, List.length_append] at hfuel
    obtain ⟨fuel, rfl⟩ : ∃ n, fuel = n + 2 := ⟨fuel - 2, by omega⟩
    have hhead := hreads fuel (linesAfter ']' level (itemTexts (level + 1) items) ++ rest)
      (by omega) (endsNumber_linesAfter level _ rest)
    have htail := @items_lines fuel (depth + 1) level rest items hitems (by omega)
    have hall := items_cons (level + 1) true hstarts hhead htail
    rw [List.cons_append, document]
    simp only [hopen]
    simp only [↓reduceIte, List.nil_append] at hall
    simp [hall, nested_of_lt hdepth, documentOf, documentsOf]

theorem reads_object {level depth : Nat} {members : List (String × Json)}
    (hdepth : depth < depthLimit) (h : ∀ m ∈ members, Reads (level + 1) (depth + 1) m.2) :
    Reads level depth (object members) := by
  intro fuel rest hfuel _
  have hopening : ("\x7b" : String).toList = ['\x7b'] := rfl
  have hclosing : ("\x7d" : String).toList = ['\x7d'] := rfl
  have hopen : ∀ text, skipSpace ('\x7b' :: text) = '\x7b' :: text := fun _ => rfl
  rw [prettyAt] at hfuel ⊢
  cases members with
  | nil =>
    rw [prettyMembers, toList_block_nil hopening hclosing] at hfuel ⊢
    obtain ⟨fuel, rfl⟩ : ∃ n, fuel = n + 2 := ⟨fuel - 2, by simp at hfuel; omega⟩
    have hclose : ∀ text, skipSpace ('\x7d' :: text) = '\x7d' :: text := fun _ => rfl
    rw [List.cons_append, document]
    simp [hopen, Json.members, hclose, nested_of_lt hdepth, documentOf, memberDocumentsOf]
  | cons m members =>
    obtain ⟨hreads, hmembers⟩ := List.forall_mem_cons.mp h
    have hline : (stringText m.1 ++ ": " ++ prettyAt (level + 1) m.2).toList =
        memberText m.1 (prettyAt (level + 1) m.2).toList := by
      simp [memberText, toList_stringText]
    rw [prettyMembers, toList_block_cons hopening hclosing, toList_prettyMembers, hline] at hfuel ⊢
    simp only [List.length_cons, List.length_append, memberText] at hfuel
    obtain ⟨fuel, rfl⟩ : ∃ n, fuel = n + 2 := ⟨fuel - 2, by omega⟩
    have hhead := hreads fuel (linesAfter '\x7d' level (memberTexts (level + 1) members) ++ rest)
      (by omega) (endsNumber_linesAfter level _ rest)
    have htail := @members_lines fuel (depth + 1) level rest members hmembers (by omega)
    have hall := @members_cons _ _ (level + 1) _ _ _ m.1 _ _ true hhead htail
    rw [List.cons_append, document]
    simp only [hopen]
    simp only [↓reduceIte, List.nil_append] at hall
    simp [hall, nested_of_lt hdepth, documentOf, memberDocumentsOf]

theorem document_word {value : Document} {c : Char} {letters : List Char} {fuel depth : Nat}
    (rest : List Char)
    (h : ∀ text, document (fuel + 1) depth (c :: text) = word value letters text) :
    document (fuel + 1) depth (c :: letters ++ rest) = (value, rest) := by
  have hword : ∀ letters, wordRest letters (letters ++ rest) = .ok rest := by
    intro letters
    induction letters with
    | nil => rfl
    | cons l letters ih => simp [wordRest, ih]
  rw [List.cons_append, h, word, hword]

/-- A value without parts is read in one step. -/
theorem reads_leaf {room level depth : Nat} {json : Json} (h : Fits room json)
    (hread : ∀ fuel rest, EndsNumber rest →
      document (fuel + 1) depth ((prettyAt level json).toList ++ rest) = (documentOf json, rest)) :
    Reads level depth json := by
  intro fuel rest hfuel hrest
  obtain ⟨c, more, htext, _⟩ := h.startsValue level
  rw [htext, List.length_cons] at hfuel
  obtain ⟨fuel, rfl⟩ : ∃ n, fuel = n + 1 := ⟨fuel - 1, by omega⟩
  exact hread fuel rest hrest

/-- The text of a value is read as the document of the value. -/
theorem Fits.reads {room : Nat} {json : Json} (h : Fits room json) {level depth : Nat}
    (hdepth : depth + room ≤ depthLimit) : Reads level depth json := by
  induction h generalizing level depth with
  | null =>
    refine reads_leaf (.null : Fits 0 _) fun fuel rest _ => ?_
    rw [toList_null]
    exact document_word rest fun _ => rfl
  | bool b =>
    refine reads_leaf (.bool b : Fits 0 _) fun fuel rest _ => ?_
    cases b with
    | true =>
      rw [toList_true]
      exact document_word rest fun _ => rfl
    | false =>
      rw [toList_false]
      exact document_word rest fun _ => rfl
  | number hn => exact reads_leaf (.number hn : Fits 0 _) fun _ _ => document_number hn
  | string s => exact reads_leaf (.string s : Fits 0 _) fun _ rest _ => document_string s _ _ rest
  | array h ih =>
    exact reads_array (by omega) fun item hitem =>
      ⟨(h item hitem).startsValue _, ih item hitem (by omega)⟩
  | object h ih => exact reads_object (by omega) fun m hm => ih m hm (by omega)

/-- A saved text is read as the document of what was saved. -/
theorem Fits.parse_pretty {json : Json} (h : Fits depthLimit json) :
    parse json.pretty = (documentOf json, []) := by
  have hreads : Reads 0 0 json := h.reads (Nat.le_of_eq (Nat.zero_add _))
  have hread := hreads (2 * json.pretty.toList.length + 2) [] (Nat.le_add_right _ _)
    (by rintro c ⟨⟩)
  rwa [List.append_nil] at hread

/-! ## Values of documents -/

theorem itemValues_documentsOf {items : List Json}
    (h : ∀ item ∈ items, (documentOf item).value = .ok item) :
    Document.itemValues (documentsOf items) = .ok items := by
  induction items with
  | nil => rfl
  | cons item items ih =>
    obtain ⟨hitem, hitems⟩ := List.forall_mem_cons.mp h
    rw [documentsOf, Document.itemValues, hitem, ih hitems]
    rfl

theorem memberValues_memberDocumentsOf {members : List (String × Json)}
    (h : ∀ m ∈ members, (documentOf m.2).value = .ok m.2) (fields : Fields) :
    Document.memberValues fields (memberDocumentsOf members) =
      .ok (members.foldl (fun fields m => fields.insert m.1 m.2) fields) := by
  induction members generalizing fields with
  | nil => rfl
  | cons m members ih =>
    obtain ⟨hm, hmembers⟩ := List.forall_mem_cons.mp h
    rw [memberDocumentsOf, Document.memberValues, hm]
    exact ih hmembers _

/-- A value is read off its document. -/
theorem Ordered.value_documentOf {json : Json} (h : Ordered json) :
    (documentOf json).value = .ok json := by
  induction h with
  | null => rfl
  | bool b => rfl
  | number _ => rfl
  | string s => rfl
  | array _ ih =>
    rw [documentOf, Document.value, itemValues_documentsOf ih]
    rfl
  | @object members horder _ ih =>
    have hall : members.foldl (fun fields m => Table.insert fields m.1 m.2) [] = members :=
      Table.Ascending.foldl_insert horder
    rw [documentOf, Document.value, memberValues_memberDocumentsOf ih, hall]
    rfl

end ShaderGraph.Json
