import Mathlib.Data.Nat.Digits.Lemmas
import ShaderGraph.Uniform.Value

/-!
The notations for colours. A text is a colour exactly if it spells six hexadecimal digits
(`Spells`), and then it is the colour of the number that they are (`ofJson?_of_spells`); where
it has only three of them, shifts and masks double each (`Color.widen_reading`). A number is a
colour exactly if six digits are enough for it, and different numbers are different colours
(`Color.ofRgb_inj`), so two texts are the same colour exactly if their digits are the same up to
case (`color_notations`).
-/

namespace ShaderGraph

/-! ## Digits -/

namespace Text

/-- The hexadecimal digits. -/
def IsHexDigit (c : Char) : Prop := c ∈ "0123456789abcdefABCDEF".toList

instance (c : Char) : Decidable (IsHexDigit c) := inferInstanceAs (Decidable (c ∈ _))

/-- The value of a hexadecimal digit. -/
def digitValue (c : Char) : Nat := "0123456789abcdef".toList.idxOf c.toLower

/-- The number that hexadecimal digits are in base 16, the first one leading. -/
def reading (digits : List Char) : Nat := Nat.ofDigits 16 (digits.map digitValue).reverse

/-- What is checked digit by digit holds of all digits. -/
theorem IsHexDigit.of_all {P : Char → Prop} [DecidablePred P]
    (hall : "0123456789abcdefABCDEF".toList.all (P ·) = true) {c : Char} (h : IsHexDigit c) : P c :=
  of_decide_eq_true (List.all_eq_true.mp hall c h)

theorem hexValue?_of_isHexDigit {c : Char} (h : IsHexDigit c) :
    hexValue? c = some (digitValue c) :=
  h.of_all (P := fun c => hexValue? c = some (digitValue c)) (by decide)

theorem digitValue_lt {c : Char} (h : IsHexDigit c) : digitValue c < 16 :=
  h.of_all (P := fun c => digitValue c < 16) (by decide)

theorem digitValue_inj {c d : Char} (hc : IsHexDigit c) :
    digitValue c = digitValue d ↔ c.toLower = d.toLower := by
  have hlower : c.toLower ∈ "0123456789abcdef".toList :=
    hc.of_all (P := fun c => c.toLower ∈ "0123456789abcdef".toList) (by decide)
  exact List.idxOf_inj hlower

theorem isHexDigit_of_toNat {c : Char} {first last : Nat} (hfirst : first ≤ c.toNat)
    (hlast : c.toNat ≤ last)
    (hall : ∀ n ∈ List.range' first (last + 1 - first), IsHexDigit (Char.ofNat n)) :
    IsHexDigit c := by
  have hmem : c.toNat ∈ List.range' first (last + 1 - first) := by
    rw [List.mem_range'_1]
    omega
  simpa using hall c.toNat hmem

/-- The characters with a value are the digits. -/
theorem isHexDigit_of_hexValue? {c : Char} {d : Nat} (h : hexValue? c = some d) :
    IsHexDigit c := by
  unfold hexValue? at h
  split_ifs at h with hdigit hlower hupper
  · simp only [Char.isDigit, Bool.and_eq_true, decide_eq_true_eq] at hdigit
    exact isHexDigit_of_toNat hdigit.1 hdigit.2 (by decide)
  · simp only [Bool.and_eq_true, decide_eq_true_eq] at hlower
    exact isHexDigit_of_toNat hlower.1 hlower.2 (by decide)
  · simp only [Bool.and_eq_true, decide_eq_true_eq] at hupper
    exact isHexDigit_of_toNat hupper.1 hupper.2 (by decide)

/-- **What texts have values**, and which. -/
theorem mapM_hexValue?_eq_some {chars : List Char} {values : List Nat} :
    chars.mapM hexValue? = some values ↔
      (∀ c ∈ chars, IsHexDigit c) ∧ values = chars.map digitValue := by
  induction chars generalizing values with
  | nil => simp [eq_comm]
  | cons c chars ih =>
    simp only [List.mapM_cons, Option.bind_eq_bind, Option.bind_eq_some_iff, Option.pure_def,
      Option.some.injEq, ih, List.forall_mem_cons, List.map_cons]
    constructor
    · rintro ⟨d, hd, _, ⟨hchars, rfl⟩, rfl⟩
      have hc := isHexDigit_of_hexValue? hd
      rw [hexValue?_of_isHexDigit hc] at hd
      cases hd
      exact ⟨⟨hc, hchars⟩, rfl⟩
    · rintro ⟨⟨hc, hchars⟩, rfl⟩
      exact ⟨_, hexValue?_of_isHexDigit hc, _, ⟨hchars, rfl⟩, rfl⟩

theorem ofHexDigits_eq (values : List Nat) :
    ofHexDigits values = Nat.ofDigits 16 values.reverse := by
  induction values using List.reverseRecOn with
  | nil => rfl
  | append_singleton values d ih =>
    rw [List.reverse_append, List.reverse_singleton, List.singleton_append, Nat.ofDigits_cons, ← ih]
    simp [ofHexDigits, Nat.add_comm, Nat.mul_comm]

theorem reading_eq (digits : List Char) : reading digits = ofHexDigits (digits.map digitValue) :=
  (ofHexDigits_eq _).symm

variable {digits digits' : List Char}

theorem values_lt (h : ∀ c ∈ digits, IsHexDigit c) :
    ∀ d ∈ (digits.map digitValue).reverse, d < 16 := by
  simp only [List.mem_reverse, List.mem_map]
  rintro _ ⟨c, hc, rfl⟩
  exact digitValue_lt (h c hc)

theorem reading_lt (h : ∀ c ∈ digits, IsHexDigit c) : reading digits < 16 ^ digits.length := by
  have hlt := Nat.ofDigits_lt_base_pow_length (by decide) (values_lt h)
  simpa [reading] using hlt

theorem map_digitValue_inj (h : ∀ c ∈ digits, IsHexDigit c) :
    digits.map digitValue = digits'.map digitValue ↔
      digits.map Char.toLower = digits'.map Char.toLower := by
  induction digits generalizing digits' with
  | nil => simp [eq_comm]
  | cons c digits ih =>
    obtain ⟨hc, hdigits⟩ := List.forall_mem_cons.mp h
    cases digits' with
    | nil => simp
    | cons d digits' => simp only [List.map_cons, List.cons.injEq, digitValue_inj hc, ih hdigits]

/-- Digits are the same number exactly if they are the same up to case. -/
theorem reading_inj (h : ∀ c ∈ digits, IsHexDigit c) (h' : ∀ c ∈ digits', IsHexDigit c)
    (hlength : digits.length = digits'.length) :
    reading digits = reading digits' ↔ digits.map Char.toLower = digits'.map Char.toLower := by
  rw [← map_digitValue_inj h]
  constructor
  · intro hsame
    have hvalues := Nat.ofDigits_inj_of_len_eq (by decide) (by simpa using hlength) (values_lt h)
      (values_lt h') hsame
    exact List.reverse_injective hvalues
  · intro hsame
    rw [reading, hsame, reading]

end Text

/-! ## Numbers -/

namespace Color

theorem channel_lt_succ : ∀ n < 255, (channel n).bits < (channel (n + 1)).bits := by
  decide +kernel

/-- Channels are told apart by their brightness. -/
theorem channel_lt {m n : Nat} (hmn : m < n) (hn : n < 256) :
    (channel m).bits < (channel n).bits := by
  induction n, hmn using Nat.le_induction with
  | base => exact channel_lt_succ m (by omega)
  | succ n _ ih => exact UInt32.lt_trans (ih (by omega)) (channel_lt_succ n (by omega))

theorem channel_inj {m n : Nat} (h : channel m = channel n) : m % 256 = n % 256 := by
  have hmod : ∀ k, channel (k % 256) = channel k := fun k => by rw [channel, channel, Nat.mod_mod]
  rw [← hmod m, ← hmod n] at h
  have hm := Nat.mod_lt m (by decide : 0 < 256)
  have hn := Nat.mod_lt n (by decide : 0 < 256)
  rcases Nat.lt_trichotomy (m % 256) (n % 256) with hlt | heq | hgt
  · exact absurd (channel_lt hlt hn) (h ▸ UInt32.lt_irrefl _)
  · exact heq
  · exact absurd (channel_lt hgt hm) (h ▸ UInt32.lt_irrefl _)

/-- **Different numbers are different colours**, as far as six digits go. -/
theorem ofRgb_inj {m n : Nat} (hm : m < 16 ^ 6) (hn : n < 16 ^ 6) :
    ofRgb m = ofRgb n ↔ m = n := by
  refine ⟨fun h => ?_, fun h => h ▸ rfl⟩
  simp only [ofRgb, mk.injEq] at h
  have hred := channel_inj h.1
  have hgreen := channel_inj h.2.1
  have hblue := channel_inj h.2.2
  omega

/-- Each of three digits comes out of their number by a shift and a mask, and 17 times the digits
are the bytes of the number of six. -/
theorem widen_ofHexDigits {r g b : Nat} (hr : r < 16) (hg : g < 16) (hb : b < 16) :
    widen (Text.ofHexDigits [r, g, b]) = Text.ofHexDigits [r, r, g, g, b, b] := by
  simp only [Text.ofHexDigits, List.foldl_cons, List.foldl_nil]
  generalize hshort : ((0 * 16 + r) * 16 + g) * 16 + b = short
  have hmask (n : Nat) : n &&& 0xF = n % 16 := Nat.and_two_pow_sub_one_eq_mod n 4
  have hred : short >>> 8 &&& 0xF = r := by
    rw [hmask, Nat.shiftRight_eq_div_pow]
    omega
  have hgreen : short >>> 4 &&& 0xF = g := by
    rw [hmask, Nat.shiftRight_eq_div_pow]
    omega
  have hblue : short &&& 0xF = b := by
    rw [hmask]
    omega
  -- bytes side by side are a sum, since none reaches into the next one
  have hbytes : (r * 17) <<< 16 ||| (g * 17) <<< 8 = (256 * (r * 17) + g * 17) <<< 8 := by
    rw [← Nat.shiftLeft_add_eq_or_of_lt (by rw [Nat.shiftLeft_eq]; omega)]
    simp only [Nat.shiftLeft_eq]
    omega
  simp only [widen, hred, hgreen, hblue]
  rw [hbytes, ← Nat.shiftLeft_add_eq_or_of_lt (by omega), Nat.shiftLeft_eq]
  omega

/-- **Three digits are widened to the same digits doubled.** -/
theorem widen_reading {chars : List Char} (h : ∀ c ∈ chars, Text.IsHexDigit c)
    (hlength : chars.length = 3) :
    widen (Text.reading chars) = Text.reading (chars.flatMap fun c => [c, c]) := by
  rw [Text.reading_eq, Text.reading_eq]
  match chars, hlength with
  | [r, g, b], _ =>
    simp only [List.forall_mem_cons] at h
    obtain ⟨hr, hg, hb, _⟩ := h
    exact widen_ofHexDigits (Text.digitValue_lt hr) (Text.digitValue_lt hg) (Text.digitValue_lt hb)

theorem ofJson?_ofInt (n : Int) :
    ofJson? (.ofInt n) = if 0 ≤ n ∧ n ≤ 0xFFFFFF then some (ofRgb n.toNat) else none := by
  cases n with
  | ofNat n => simp [ofJson?, Json.ofInt, Json.toNat?, Int.toNat?]
  | negSucc n => simp [ofJson?, Json.ofInt, Json.toNat?, Int.toNat?]

end Color

/-! ## Texts -/

/-- A text spells six hexadecimal digits: it consists of them or of three that are doubled each,
and there may be a `#` before them. -/
def Spells (text : String) (digits : List Char) : Prop :=
  ∃ chars, (text.toList = chars ∨ text.toList = '#' :: chars) ∧
    (∀ c ∈ chars, Text.IsHexDigit c) ∧
    (chars.length = 6 ∧ digits = chars ∨
      chars.length = 3 ∧ digits = chars.flatMap fun c => [c, c])

namespace Spells

variable {text : String} {digits : List Char}

theorem length_eq (h : Spells text digits) : digits.length = 6 := by
  obtain ⟨chars, _, _, ⟨hlength, rfl⟩ | ⟨hlength, rfl⟩⟩ := h
  · exact hlength
  · simp [List.length_flatMap, hlength]

theorem isHexDigit (h : Spells text digits) : ∀ c ∈ digits, Text.IsHexDigit c := by
  obtain ⟨chars, _, hchars, ⟨_, rfl⟩ | ⟨_, rfl⟩⟩ := h
  · exact hchars
  · intro c hc
    obtain ⟨d, hd, hcd⟩ := List.mem_flatMap.mp hc
    obtain rfl : c = d := by simpa using hcd
    exact hchars c hd

end Spells

/-- Of a text that is made of digits, at most the `#` is dropped. -/
theorem Color.dropHash_eq_iff {text chars : List Char} (h : ∀ c ∈ chars, Text.IsHexDigit c) :
    dropHash text = chars ↔ text = chars ∨ text = '#' :: chars := by
  -- a second `#` would be among the digits
  have hhash : ¬ Text.IsHexDigit '#' := by decide
  unfold dropHash
  split
  · rename_i rest
    constructor
    · rintro rfl
      exact .inr rfl
    · rintro (rfl | hrest)
      · exact absurd (h '#' List.mem_cons_self) hhash
      · exact (List.cons.inj hrest).2
  · rename_i hother
    constructor
    · exact .inl
    · rintro (rfl | rfl)
      · rfl
      · exact absurd rfl (hother chars)

/-- **What a text is as a colour.** -/
theorem Color.ofHex?_eq_some {text : String} {color : Color} :
    ofHex? text = some color ↔
      ∃ digits, Spells text digits ∧ color = ofRgb (Text.reading digits) := by
  constructor
  · intro h
    obtain ⟨values, hvalues, hcolor⟩ := Option.bind_eq_some_iff.mp h
    obtain ⟨hchars, rfl⟩ := Text.mapM_hexValue?_eq_some.mp hvalues
    have htext := (dropHash_eq_iff hchars).mp rfl
    simp only [← Text.reading_eq, List.length_map] at hcolor
    split at hcolor
    · rename_i hlength
      rw [widen_reading hchars hlength] at hcolor
      exact ⟨_, ⟨_, htext, hchars, .inr ⟨hlength, rfl⟩⟩, (Option.some.inj hcolor).symm⟩
    · rename_i hlength
      exact ⟨_, ⟨_, htext, hchars, .inl ⟨hlength, rfl⟩⟩, (Option.some.inj hcolor).symm⟩
    · cases hcolor
  · rintro ⟨digits, ⟨chars, htext, hchars, hdigits⟩, rfl⟩
    have hvalues := Text.mapM_hexValue?_eq_some.mpr ⟨hchars, rfl⟩
    unfold ofHex?
    rw [(dropHash_eq_iff hchars).mpr htext, hvalues, Option.bind_some, List.length_map,
      ← Text.reading_eq]
    rcases hdigits with ⟨hlength, rfl⟩ | ⟨hlength, rfl⟩
    · rw [hlength]
      rfl
    · rw [hlength, ← widen_reading hchars hlength]
      rfl

/-- A text that spells digits is the colour of their number. -/
theorem Color.ofJson?_of_spells {text : String} {digits : List Char} (h : Spells text digits) :
    ofJson? (.string text) = some (ofRgb (Text.reading digits)) :=
  ofHex?_eq_some.mpr ⟨digits, h, rfl⟩

theorem Spells.reading_lt {text : String} {digits : List Char} (h : Spells text digits) :
    Text.reading digits < 16 ^ 6 :=
  h.length_eq ▸ Text.reading_lt h.isHexDigit

/-- **Notations for colours.** A text is a colour exactly if, but for a `#` at its front, it is
three or six hexadecimal digits, and then it is the same colour as the number that the six digits
are in base 16, or the three with each of them doubled. So two texts are the same colour exactly
if the six digits that they spell are the same up to case. An integer is a colour exactly if it
is neither negative nor larger than six digits allow. -/
theorem color_notations (text : String) :
    ((Color.ofJson? (.string text)).isSome ↔ ∃ digits, Spells text digits) ∧
      (∀ digits, Spells text digits →
        Color.ofJson? (.string text) = Color.ofJson? (.ofInt (Text.reading digits))) ∧
      (∀ other digits digits', Spells text digits → Spells other digits' →
        (Color.ofJson? (.string text) = Color.ofJson? (.string other) ↔
          digits.map Char.toLower = digits'.map Char.toLower)) ∧
      ∀ n : Int, (Color.ofJson? (.ofInt n)).isSome ↔ 0 ≤ n ∧ n ≤ 0xFFFFFF := by
  refine ⟨?_, ?_, ?_, ?_⟩
  · rw [Option.isSome_iff_exists]
    constructor
    · rintro ⟨color, hcolor⟩
      obtain ⟨digits, hdigits, _⟩ := Color.ofHex?_eq_some.mp hcolor
      exact ⟨digits, hdigits⟩
    · rintro ⟨digits, hdigits⟩
      exact ⟨_, Color.ofJson?_of_spells hdigits⟩
  · intro digits h
    have hlt := h.reading_lt
    rw [Color.ofJson?_of_spells h, Color.ofJson?_ofInt, if_pos (by omega), Int.toNat_natCast]
  · intro other digits digits' h h'
    have hlength : digits.length = digits'.length := h.length_eq.trans h'.length_eq.symm
    rw [Color.ofJson?_of_spells h, Color.ofJson?_of_spells h', Option.some_inj,
      Color.ofRgb_inj h.reading_lt h'.reading_lt,
      Text.reading_inj h.isHexDigit h'.isHexDigit hlength]
  · intro n
    rw [Color.ofJson?_ofInt]
    split_ifs with hn <;> simp [hn]

example : Color.ofJson? (.string "#fA0") = Color.ofJson? (.ofInt 0xFFAA00) ∧
    Color.ofJson? (.string "##fa0") = none ∧ Color.ofJson? (.string "+fa0") = none := by
  decide +kernel

end ShaderGraph
