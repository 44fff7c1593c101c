import ShaderGraph.Json.Document
import ShaderGraph.Json.Printer
import ShaderGraph.Proofs.Shortest

/-!
The text of a number. An integer is written by its digits, another number by those of
its shortest decimal, with a point among them or with an exponent behind them. What
stands before the end of the number is read as that number again (`Number.Spelling`),
for every number that a text can hold (`Number.InRange.spelling`).
-/

namespace ShaderGraph.Json

/-! ## Digits -/

theorem digitsValue_eq (ds : List Char) : digitsValue ds = Nat.ofDigitChars 10 ds 0 := by
  simp only [digitsValue, Nat.ofDigitChars, Nat.mul_comm]

theorem digitsValue_toDigits (n : Nat) : digitsValue (Nat.toDigits 10 n) = n := by
  rw [digitsValue_eq, Nat.ofDigitChars_toDigits (by decide) (by decide)]

theorem digitsValue_append (ds es : List Char) :
    digitsValue (ds ++ es) = digitsValue ds * 10 ^ es.length + digitsValue es := by
  simp only [digitsValue_eq]
  rw [Nat.ofDigitChars_append, Nat.ofDigitChars_eq_ofDigitChars_zero, Nat.mul_comm]

theorem digitsValue_zeros (n : Nat) : digitsValue (List.replicate n '0') = 0 := by
  induction n with
  | zero => rfl
  | succ n ih =>
    rw [List.replicate_succ']
    rw [digitsValue_append, ih]
    rfl

/-- At least one digit, and nothing else. -/
structure IsDigits (ds : List Char) : Prop where
  ne_nil : ds ≠ []
  digits : ∀ c ∈ ds, c.isDigit = true

/-- Digits without a needless zero in front. -/
structure IsWhole (ds : List Char) : Prop extends IsDigits ds where
  lead : ds = ['0'] ∨ ds.head? ≠ some '0'

theorem isDigits_zero : IsDigits ['0'] := by
  refine ⟨List.cons_ne_nil _ _, fun c hc => ?_⟩
  rw [List.mem_singleton.mp hc]
  rfl

theorem isWhole_zero : IsWhole ['0'] := ⟨isDigits_zero, .inl rfl⟩

theorem isDigits_toDigits (n : Nat) : IsDigits (Nat.toDigits 10 n) :=
  ⟨Nat.toDigits_ne_nil, fun _ hc => Nat.isDigit_of_mem_toDigits (by decide) (by decide) hc⟩

theorem head?_toDigits {n : Nat} (h : n ≠ 0) : (Nat.toDigits 10 n).head? ≠ some '0' := by
  induction n using Nat.strongRecOn with
  | ind n ih =>
    rw [Nat.toDigits_eq_if (by decide)]
    split
    · rename_i hlt
      have hall : ∀ m < 10, m ≠ 0 → m.digitChar ≠ '0' := by decide
      simpa using hall n hlt h
    · rename_i hge
      rw [List.head?_append_of_ne_nil _ Nat.toDigits_ne_nil]
      exact ih (n / 10) (by omega) (by omega)

theorem isWhole_toDigits (n : Nat) : IsWhole (Nat.toDigits 10 n) := by
  refine ⟨isDigits_toDigits n, ?_⟩
  by_cases h : n = 0
  · left
    rw [h]
    rfl
  · exact .inr (head?_toDigits h)

/-! ## The parts of a number -/

/-- What may follow digits without being one of them. -/
def EndsDigits (rest : List Char) : Prop := ∀ c ∈ rest.head?, c.isDigit = false

/-- What may follow a number without being taken for a part of it. -/
def EndsNumber (rest : List Char) : Prop :=
  ∀ c ∈ rest.head?, c.isDigit = false ∧ c ≠ '.' ∧ c ≠ 'e' ∧ c ≠ 'E'

variable {ds rest : List Char}

theorem EndsNumber.endsDigits (h : EndsNumber rest) : EndsDigits rest := fun c hc => (h c hc).1

theorem spanDigits_append (hds : IsDigits ds) (hrest : EndsDigits rest) :
    spanDigits (ds ++ rest) = .ok (ds, rest) := by
  have hspan : (ds ++ rest).span Char.isDigit = (ds, rest) := by
    rw [List.span_eq_takeWhile_dropWhile, List.takeWhile_append_of_pos hds.digits,
      List.dropWhile_append_of_pos hds.digits]
    cases rest with
    | nil => simp
    | cons c rest => simp [hrest c rfl]
  unfold spanDigits
  rw [hspan]
  obtain ⟨c, ds, rfl⟩ := List.exists_cons_of_ne_nil hds.ne_nil
  rfl

theorem wholeDigits_append (hds : IsWhole ds) (hrest : EndsDigits rest) :
    wholeDigits (ds ++ rest) = .ok (ds, rest) := by
  rcases hds.lead with rfl | hlead
  · have hany : rest.head?.any Char.isDigit = false := by
      cases rest with
      | nil => rfl
      | cons c rest => exact hrest c rfl
    simp [wholeDigits, hany]
  · obtain ⟨c, ds, rfl⟩ := List.exists_cons_of_ne_nil hds.ne_nil
    have hc : c ≠ '0' := by simpa using hlead
    rw [List.cons_append, wholeDigits, ← List.cons_append, spanDigits_append hds.toIsDigits hrest]
    intro rest' heq
    exact hc (List.cons.inj heq).1

theorem fractionDigits_point (hds : IsDigits ds) (hrest : EndsDigits rest) :
    fractionDigits ('.' :: ds ++ rest) = .ok (some ds, rest) := by
  rw [List.cons_append, fractionDigits, spanDigits_append hds hrest]
  rfl

theorem fractionDigits_none (hrest : rest.head? ≠ some '.') :
    fractionDigits rest = .ok (none, rest) := by
  rw [fractionDigits]
  rintro rest' rfl
  exact hrest rfl

theorem exponentDigits_signed (negative : Bool) (hds : IsDigits ds) (hrest : EndsDigits rest) :
    exponentDigits ('e' :: (if negative then '-' else '+') :: ds ++ rest) =
      .ok (some (if negative then -(digitsValue ds : Int) else digitsValue ds), rest) := by
  cases negative <;>
    simp [exponentDigits, spanDigits_append hds hrest, bind, Except.bind, pure, Except.pure]

theorem exponentDigits_none (hrest : EndsNumber rest) : exponentDigits rest = .ok (none, rest) := by
  cases rest with
  | nil => rfl
  | cons c rest =>
    have hc := hrest c rfl
    simp [exponentDigits, hc.2.2.1, hc.2.2.2]

/-! ## The three ways to write a number -/

section Forms

variable {whole places : List Char} {negative : Bool} (hwhole : IsWhole whole)
  (hrest : EndsNumber rest)

include hwhole hrest

theorem numberRest_integer :
    numberRest negative (whole ++ rest) = .ok (integer? negative (digitsValue whole), rest) := by
  have hpoint : rest.head? ≠ some '.' := fun h => (hrest '.' h).2.1 rfl
  simp [numberRest, wholeDigits_append hwhole hrest.endsDigits, fractionDigits_none hpoint,
    exponentDigits_none hrest, bind, Except.bind, pure, Except.pure]

theorem numberRest_positional (hplaces : IsDigits places) :
    numberRest negative (whole ++ '.' :: places ++ rest) =
      .ok ((Binary64.ofDecimal? negative (digitsValue (whole ++ places))
        (-places.length)).map .float, rest) := by
  have hends : EndsDigits ('.' :: places ++ rest) := by
    rintro c ⟨rfl⟩
    rfl
  rw [List.append_assoc]
  simp only [numberRest, wholeDigits_append hwhole hends,
    fractionDigits_point hplaces hrest.endsDigits, exponentDigits_none hrest, bind, Except.bind,
    pure, Except.pure]
  simp

theorem numberRest_scientific (hplaces : ∀ c ∈ places, c.isDigit = true) (down : Bool)
    (hds : IsDigits ds) :
    numberRest negative (whole ++ (if places = [] then [] else '.' :: places) ++
        'e' :: (if down then '-' else '+') :: ds ++ rest) =
      .ok ((Binary64.ofDecimal? negative (digitsValue (whole ++ places))
        ((if down then -(digitsValue ds : Int) else digitsValue ds) - places.length)).map .float,
        rest) := by
  have hexponent : EndsDigits ('e' :: (if down then '-' else '+') :: ds ++ rest) := by
    rintro c ⟨rfl⟩
    rfl
  by_cases hnone : places = []
  · subst hnone
    have hpoint : ('e' :: (if down then '-' else '+') :: ds ++ rest).head? ≠ some '.' := by simp
    rw [if_pos rfl, List.append_nil, List.append_assoc]
    simp only [numberRest, wholeDigits_append hwhole hexponent, fractionDigits_none hpoint,
      exponentDigits_signed down hds hrest.endsDigits, bind, Except.bind, pure, Except.pure]
    simp
  · have hends :
        EndsDigits ('.' :: places ++ ('e' :: (if down then '-' else '+') :: ds ++ rest)) := by
      rintro c ⟨rfl⟩
      rfl
    rw [if_neg hnone, List.append_assoc, List.append_assoc]
    simp only [numberRest, wholeDigits_append hwhole hends,
      fractionDigits_point ⟨hnone, hplaces⟩ hexponent,
      exponentDigits_signed down hds hrest.endsDigits, bind, Except.bind, pure, Except.pure]
    simp

end Forms

/-! ## Integers -/

/-- Numbers that a text can hold: integers of 64 bits, signed or not, and finite numbers. -/
def Number.InRange : Number → Prop
  | int n => -2 ^ 63 ≤ n ∧ n < 2 ^ 64
  | float x => x.isFinite = true

/-- A text for a number, after its sign. -/
structure Number.Spelling (n : Number) (negative : Bool) (body : List Char) : Prop where
  text : n.text.toList = if negative then '-' :: body else body
  starts : ∃ c more, body = c :: more ∧ c.isDigit = true
  reads : ∀ rest, EndsNumber rest → numberRest negative (body ++ rest) = .ok (some n, rest)

theorem IsDigits.starts (h : IsDigits ds) (more : List Char) :
    ∃ c cs, ds ++ more = c :: cs ∧ c.isDigit = true := by
  obtain ⟨c, ds, rfl⟩ := List.exists_cons_of_ne_nil h.ne_nil
  exact ⟨c, ds ++ more, rfl, h.digits c (List.mem_cons_self ..)⟩

theorem integer?_natAbs {n : Int} (h : (Number.int n).InRange) :
    integer? (decide (n < 0)) n.natAbs = some (.int n) := by
  obtain ⟨hlow, hhigh⟩ := h
  unfold integer?
  rw [show twoTo 64 = 2 ^ 64 from rfl, show twoTo 63 = 2 ^ 63 from rfl]
  by_cases hn : n < 0
  · have habs : -(n.natAbs : Int) = n := by omega
    have hne : (n.natAbs != 0) = true := by
      rw [bne_iff_ne]
      omega
    have hle : n.natAbs ≤ 2 ^ 63 := by omega
    simp only [hn, hne, hle, habs, decide_true, Bool.not_true, Bool.false_and, Bool.and_true,
      Bool.false_eq_true, ↓reduceIte]
  · have habs : (n.natAbs : Int) = n := by omega
    have hlt : n.natAbs < 2 ^ 64 := by omega
    simp only [hn, hlt, habs, decide_false, decide_true, Bool.not_false, Bool.and_true, ↓reduceIte]

theorem Number.spelling_int {n : Int} (h : (Number.int n).InRange) :
    (Number.int n).Spelling (decide (n < 0)) (Nat.toDigits 10 n.natAbs) := by
  refine ⟨?_, ?_, ?_⟩
  · show (toString n).toList = _
    rw [Int.toString_eq_repr, Int.repr_eq_if]
    by_cases hn : n < 0
    · have habs : (-n).toNat = n.natAbs := by omega
      rw [if_neg (by omega), decide_eq_true hn, if_pos rfl, String.toList_append, Nat.toList_repr,
        habs]
      rfl
    · have habs : n.toNat = n.natAbs := by omega
      rw [if_pos (by omega), decide_eq_false hn, if_neg Bool.false_ne_true, Nat.toList_repr, habs]
  · simpa using (isDigits_toDigits n.natAbs).starts []
  · intro rest hrest
    rw [numberRest_integer (isWhole_toDigits _) hrest, digitsValue_toDigits, integer?_natAbs h]

/-! ## Floating-point numbers -/

/-- The places after the point, of which one at least is written. -/
def placesOf (fraction : String) : String := if fraction = "" then "0" else fraction

/-- A decimal is written out by the digits before and behind a point. -/
structure Positional (d : Decimal) (whole places : List Char) : Prop where
  isWhole : IsWhole whole
  isDigits : IsDigits places
  value : (digitsValue (whole ++ places) : ℚ) * 10 ^ (-(places.length : Int)) = d.value

section Positional

variable {d : Decimal} (hds : IsDigits ds) (hvalue : digitsValue ds = d.digits)

include hds hvalue

/-- The point stands before the first digit. -/
theorem positional_below {n : Nat} (hn : ((n + ds.length : Nat) : Int) = -d.exponent) :
    Positional d ['0'] (List.replicate n '0' ++ ds) := by
  refine ⟨isWhole_zero, ⟨by simp [hds.ne_nil], ?_⟩, ?_⟩
  · intro c hc
    rcases List.mem_append.mp hc with hc | hc
    · rw [List.eq_of_mem_replicate hc]
      rfl
    · exact hds.digits c hc
  · have hzero : digitsValue ['0'] = 0 := rfl
    rw [digitsValue_append, digitsValue_append, digitsValue_zeros, hzero, hvalue,
      List.length_append, List.length_replicate, hn]
    simp [Decimal.value]

/-- The point stands between two digits. -/
theorem positional_inside (hlead : ds.head? ≠ some '0') {whole places : List Char}
    (hsplit : ds = whole ++ places) (hwhole : whole ≠ [])
    (hplaces : places ≠ []) (hn : (places.length : Int) = -d.exponent) :
    Positional d whole places := by
  subst hsplit
  refine ⟨⟨⟨hwhole, fun c hc => ?_⟩, .inr ?_⟩, ⟨hplaces, fun c hc => ?_⟩, ?_⟩
  · exact hds.digits c (List.mem_append_left _ hc)
  · rwa [List.head?_append_of_ne_nil _ hwhole] at hlead
  · exact hds.digits c (List.mem_append_right _ hc)
  · rw [hvalue, hn, neg_neg]
    rfl

/-- The point stands behind the last digit, and behind zeros if need be. -/
theorem positional_above (hlead : ds.head? ≠ some '0') {n : Nat} (hn : (n : Int) = d.exponent) :
    Positional d (ds ++ List.replicate n '0') ['0'] := by
  refine ⟨⟨⟨by simp [hds.ne_nil], ?_⟩, .inr ?_⟩, isDigits_zero, ?_⟩
  · intro c hc
    rcases List.mem_append.mp hc with hc | hc
    · exact hds.digits c hc
    · rw [List.eq_of_mem_replicate hc]
      rfl
  · rwa [List.head?_append_of_ne_nil _ hds.ne_nil]
  · have hzero : digitsValue ['0'] = 0 := rfl
    rw [digitsValue_append, digitsValue_append, digitsValue_zeros, hzero, hvalue,
      List.length_replicate, Decimal.value, ← hn, zpow_natCast]
    simp

end Positional

theorem placesOf_ofList (h : ds ≠ []) : (placesOf (String.ofList ds)).toList = ds := by
  have hne : String.ofList ds ≠ "" := by
    intro h0
    exact h (by simpa using congrArg String.toList h0)
  rw [placesOf, if_neg hne, String.toList_ofList]

theorem placesOf_empty : (placesOf (String.ofList [])).toList = ['0'] := rfl

theorem positional_spec {d : Decimal} (h : d.digits ≠ 0) :
    Positional d d.positional.1.toList (placesOf d.positional.2).toList := by
  have hdigits := isDigits_toDigits d.digits
  have hlead := head?_toDigits h
  have hvalue := digitsValue_toDigits d.digits
  unfold Decimal.positional
  generalize Nat.toDigits 10 d.digits = ds at hdigits hlead hvalue
  have hlength : 0 < ds.length := List.length_pos_of_ne_nil hdigits.ne_nil
  simp only
  split
  · rw [placesOf_ofList (by simp [hdigits.ne_nil])]
    have hzero : ("0" : String).toList = ['0'] := rfl
    simp only [hzero]
    refine positional_below hdigits hvalue ?_
    omega
  · rw [String.toList_ofList]
    rcases lt_or_ge d.exponent 0 with he | he
    · have hnone : d.exponent.toNat = 0 := by omega
      have hdrop : ds.drop (ds.length + d.exponent).toNat ≠ [] := by
        rw [← List.length_pos_iff, List.length_drop]
        omega
      rw [hnone, List.replicate_zero, List.append_nil, placesOf_ofList hdrop]
      refine positional_inside hdigits hvalue hlead (List.take_append_drop _ _).symm ?_ hdrop ?_
      · rw [← List.length_pos_iff, List.length_take]
        omega
      · rw [List.length_drop]
        omega
    · have hall : (ds ++ List.replicate d.exponent.toNat '0').length ≤
          (ds.length + d.exponent).toNat := by
        rw [List.length_append, List.length_replicate]
        omega
      rw [List.take_of_length_le hall, List.drop_of_length_le hall, placesOf_empty]
      refine positional_above hdigits hvalue hlead ?_
      omega

section Float

variable {x : Binary64}

theorem spelling_of_body (body : String)
    (htext : floatText x = (if x.isNegative then "-" else "") ++ body)
    (hstarts : ∃ c more, body.toList = c :: more ∧ c.isDigit = true)
    (hreads : ∀ rest, EndsNumber rest →
      numberRest x.isNegative (body.toList ++ rest) = .ok (some (.float x), rest)) :
    (Number.float x).Spelling x.isNegative body.toList := by
  refine ⟨?_, hstarts, hreads⟩
  show (floatText x).toList = _
  rw [htext, String.toList_append]
  cases x.isNegative <;> rfl

variable (hfinite : x.isFinite = true)

include hfinite

theorem spelling_zero (h0 : x.magnitude = 0) :
    (Number.float x).Spelling x.isNegative ("0.0" : String).toList := by
  refine spelling_of_body "0.0" ?_ ⟨'0', ['.', '0'], rfl, rfl⟩ ?_
  · unfold floatText
    simp only [hfinite, h0, Bool.not_true, Bool.false_eq_true, ↓reduceIte]
  · intro rest hrest
    have hx : Binary64.signed x.isNegative 0 = x := by
      rw [← h0]
      exact x.signed_magnitude
    have hread : numberRest x.isNegative (['0'] ++ '.' :: ['0'] ++ rest) = _ :=
      numberRest_positional isWhole_zero hrest isDigits_zero
    refine hread.trans ?_
    simp [Binary64.ofDecimal?, show digitsValue ['0', '0'] = 0 from rfl, hx]

variable (h0 : x.magnitude ≠ 0)

include h0

/-- A decimal that has the value of the shortest one reads back as the number. -/
theorem ofDecimal?_shortest {digits : Nat} {exponent : Int}
    (h : (digits : ℚ) * 10 ^ exponent = (Decimal.shortest .toEven x).value) :
    Binary64.ofDecimal? x.isNegative digits exponent = some x := by
  apply Binary64.ofDecimal?_eq hfinite h0
  rw [h]
  exact Decimal.covers_shortest h0 .toEven hfinite

theorem digits_shortest_ne_zero : (Decimal.shortest .toEven x).digits ≠ 0 := by
  intro hzero
  have hcovers := Decimal.covers_shortest h0 .toEven hfinite
  rw [Decimal.value, hzero, Nat.cast_zero, zero_mul] at hcovers
  have hpos := (Binary64.range_of_covers hfinite h0 hcovers).1
  exact absurd hpos (not_le.mpr (by positivity))

theorem spelling_positional (he : -5 ≤ (Decimal.shortest .toEven x).leadingExponent ∧
    (Decimal.shortest .toEven x).leadingExponent < 16) :
    ∃ body, (Number.float x).Spelling x.isNegative body := by
  have hspec := positional_spec (digits_shortest_ne_zero hfinite h0)
  set d := Decimal.shortest .toEven x with hd
  have hbody : (d.positional.1 ++ "." ++ placesOf d.positional.2).toList =
      d.positional.1.toList ++ '.' :: (placesOf d.positional.2).toList := by
    rw [String.toList_append, String.toList_append, List.append_assoc]
    rfl
  refine ⟨_, spelling_of_body (d.positional.1 ++ "." ++ placesOf d.positional.2) ?_ ?_ ?_⟩
  · unfold floatText
    simp only [hfinite, h0, he, ← hd, Bool.not_true, Bool.false_eq_true, ↓reduceIte, decide_true,
      Bool.and_self, String.append_assoc, placesOf]
  · rw [hbody]
    exact hspec.isWhole.starts _
  · intro rest hrest
    rw [hbody, numberRest_positional hspec.isWhole hrest hspec.isDigits,
      ofDecimal?_shortest hfinite h0 hspec.value]
    rfl

omit hfinite h0 in
theorem toList_scientific (c : Char) (more : List Char) (e : Int) :
    (String.ofList [c] ++ (if String.ofList more = "" then "" else "." ++ String.ofList more) ++
      "e" ++ (if e < 0 then "-" else "+") ++ toString e.natAbs).toList =
        [c] ++ (if more = [] then [] else '.' :: more) ++
          'e' :: (if decide (e < 0) then '-' else '+') :: Nat.toDigits 10 e.natAbs := by
  have hmore : (if String.ofList more = "" then "" else "." ++ String.ofList more).toList =
      if more = [] then [] else '.' :: more := by
    cases more with
    | nil => rfl
    | cons b more => simp
  have hsign : (if e < 0 then "-" else "+").toList = [if decide (e < 0) then '-' else '+'] := by
    by_cases h : e < 0 <;> simp [h]
  rw [String.toList_append, String.toList_append, String.toList_append, String.toList_append, hmore,
    hsign, String.toList_ofList, Nat.toString_eq_repr, Nat.toList_repr]
  simp

theorem spelling_scientific (he : ¬(-5 ≤ (Decimal.shortest .toEven x).leadingExponent ∧
    (Decimal.shortest .toEven x).leadingExponent < 16)) :
    ∃ body, (Number.float x).Spelling x.isNegative body := by
  have hdigits := digits_shortest_ne_zero hfinite h0
  set d := Decimal.shortest .toEven x with hd
  have hall := isDigits_toDigits d.digits
  have hlead := head?_toDigits hdigits
  have hvalue := digitsValue_toDigits d.digits
  -- The digits are the leading one and those that follow it.
  obtain ⟨c, more, hsplit⟩ := List.exists_cons_of_ne_nil hall.ne_nil
  rw [hsplit] at hall hlead hvalue
  have hwhole : IsWhole [c] :=
    ⟨⟨by simp, fun b hb => hall.digits b (by simp at hb; simp [hb])⟩, .inr (by simpa using hlead)⟩
  have hmore : ∀ b ∈ more, b.isDigit = true := fun b hb => hall.digits b (List.mem_cons_of_mem _ hb)
  have hexponent : d.leadingExponent = more.length + d.exponent := by
    rw [Decimal.leadingExponent, hsplit, List.length_cons]
    push_cast
    ring
  refine ⟨_, spelling_of_body (String.ofList [c] ++
    (if String.ofList more = "" then "" else "." ++ String.ofList more) ++ "e" ++
    (if d.leadingExponent < 0 then "-" else "+") ++ toString d.leadingExponent.natAbs) ?_ ?_ ?_⟩
  · have hnot : (decide (-5 ≤ d.leadingExponent) && decide (d.leadingExponent < 16)) = false := by
      rw [← Bool.not_eq_true, Bool.and_eq_true, decide_eq_true_eq, decide_eq_true_eq]
      exact he
    unfold floatText
    simp only [hfinite, h0, hnot, ← hd, Decimal.scientific, hsplit, Bool.not_true,
      Bool.false_eq_true, ↓reduceIte, String.append_assoc, List.take_succ_cons, List.take_zero, List.drop_succ_cons,
      List.drop_zero]
  · rw [toList_scientific, List.append_assoc]
    exact hwhole.starts _
  · intro rest hrest
    have hsigned : (if decide (d.leadingExponent < 0) then
        -(digitsValue (Nat.toDigits 10 d.leadingExponent.natAbs) : Int)
        else digitsValue (Nat.toDigits 10 d.leadingExponent.natAbs)) - more.length =
          d.exponent := by
      rw [digitsValue_toDigits]
      by_cases hneg : d.leadingExponent < 0
      · rw [decide_eq_true hneg, if_pos rfl]
        omega
      · rw [decide_eq_false hneg, if_neg Bool.false_ne_true]
        omega
    rw [toList_scientific, numberRest_scientific hwhole hrest hmore _ (isDigits_toDigits _),
      hsigned, List.singleton_append, hvalue, ofDecimal?_shortest hfinite h0 rfl]
    rfl

end Float

/-- The text of a number that a text can hold reads back as the number. -/
theorem Number.InRange.spelling {n : Number} (h : n.InRange) :
    ∃ negative body, n.Spelling negative body := by
  cases n with
  | int n => exact ⟨_, _, spelling_int h⟩
  | float x =>
    by_cases h0 : x.magnitude = 0
    · exact ⟨_, _, spelling_zero h h0⟩
    · by_cases he : -5 ≤ (Decimal.shortest .toEven x).leadingExponent ∧
          (Decimal.shortest .toEven x).leadingExponent < 16
      · exact ⟨_, spelling_positional h h0 he⟩
      · exact ⟨_, spelling_scientific h h0 he⟩

end ShaderGraph.Json
