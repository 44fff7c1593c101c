import ShaderGraph.Decimal
import ShaderGraph.Proofs.Rounding

/-!
Shortest decimals. The search for one goes through finer and finer grids and takes
the first point in the range of the number, so what it finds rounds to the number
(`Decimal.covers_shortest`). It does find one: seventeen digits are enough for any
range (`fine_grid`). A decimal in the range of a number is read as that number
(`Binary64.ofDecimal?_eq`).
-/

namespace ShaderGraph

namespace Decimal

/-- The number that a decimal is. -/
def value (d : Decimal) : ℚ := d.digits * 10 ^ d.exponent

theorem value_stripZeros (n : Nat) (d : Decimal) : (stripZeros n d).value = d.value := by
  induction n generalizing d with
  | zero => rfl
  | succ n ih =>
    unfold stripZeros
    split
    · rename_i h
      rw [Bool.and_eq_true, beq_iff_eq] at h
      have hdigits : d.digits = d.digits / 10 * 10 := by omega
      rw [ih, value, value]
      conv_rhs => rw [hdigits]
      rw [zpow_add_one₀ (by norm_num)]
      push_cast
      ring
    · rfl

namespace Interval

variable (i : Interval)

/-! ## Grids -/

/-- The factor by which both sides of a comparison on a grid are multiplied. -/
def scale (g : Int) : ℚ := 2 ^ (-i.unit).toNat * 10 ^ (-g).toNat

theorem scale_pos (g : Int) : 0 < i.scale g := by
  unfold scale
  positivity

theorem cast_scaled (n : Nat) (g : Int) :
    (i.scaled n g : ℚ) = n * 2 ^ i.unit * i.scale g := by
  unfold scaled scale
  rw [zpow_eq_div two_ne_zero i.unit]
  push_cast [cast_twoTo, cast_tenTo]
  field_simp

theorem cast_grid (g : Int) : (i.grid g : ℚ) = 10 ^ g * i.scale g := by
  unfold grid scale
  rw [zpow_eq_div (by norm_num) g]
  push_cast [cast_twoTo, cast_tenTo]
  field_simp

theorem scaled_le_iff (n d : Nat) (g : Int) :
    i.scaled n g ≤ d * i.grid g ↔ (n : ℚ) * 2 ^ i.unit ≤ d * 10 ^ g := by
  rw [← Nat.cast_le (α := ℚ), Nat.cast_mul, cast_scaled, cast_grid, ← mul_assoc]
  exact mul_le_mul_iff_left₀ (i.scale_pos g)

theorem le_scaled_iff (n d : Nat) (g : Int) :
    d * i.grid g ≤ i.scaled n g ↔ (d : ℚ) * 10 ^ g ≤ n * 2 ^ i.unit := by
  rw [← Nat.cast_le (α := ℚ), Nat.cast_mul, cast_scaled, cast_grid, ← mul_assoc]
  exact mul_le_mul_iff_left₀ (i.scale_pos g)

/-- The range of an interval, in rationals. -/
theorem contains_iff (d : Nat) (g : Int) : i.contains d g = true ↔
    (i.low : ℚ) * 2 ^ i.unit ≤ d * 10 ^ g ∧ (d : ℚ) * 10 ^ g ≤ i.high * 2 ^ i.unit ∧
      ((d : ℚ) * 10 ^ g = i.low * 2 ^ i.unit ∨ (d : ℚ) * 10 ^ g = i.high * 2 ^ i.unit →
        i.closed = true) := by
  rw [← scaled_le_iff, ← le_scaled_iff]
  unfold contains
  cases hclosed : i.closed with
  | true => simp
  | false =>
    simp only [Bool.false_eq_true, ↓reduceIte, Bool.and_eq_true, decide_eq_true_eq, imp_false,
      not_or]
    rw [← not_le, ← not_le, scaled_le_iff, le_scaled_iff, scaled_le_iff, le_scaled_iff]
    constructor
    · rintro ⟨hlow, hhigh⟩
      rw [not_le] at hlow hhigh
      exact ⟨hlow.le, hhigh.le, hlow.ne', hhigh.ne⟩
    · rintro ⟨hlow, hhigh, hne, hne'⟩
      exact ⟨fun h => hne (le_antisymm h hlow), fun h => hne' (le_antisymm hhigh h)⟩

/-- The decimal found on a grid is in the range. -/
theorem onGrid?_contains {tie : Tie} {g : Int} {d : Decimal} (h : i.onGrid? tie g = some d) :
    i.contains d.digits d.exponent = true := by
  unfold onGrid? at h
  simp only at h
  split at h
  · rename_i hd hd'
    cases h
    simp only
    split_ifs
    · exact hd'
    · exact hd
  · rename_i hd _
    cases h
    exact hd
  · rename_i _ hd
    cases h
    exact hd
  · cases h

theorem onGrid?_isSome {tie : Tie} {g : Int}
    (h : i.contains (i.scaled i.value g / i.grid g) g = true ∨
      i.contains (i.scaled i.value g / i.grid g + 1) g = true) :
    (i.onGrid? tie g).isSome = true := by
  unfold onGrid?
  simp only
  split <;> simp_all

theorem grid_pos (g : Int) : 0 < i.grid g :=
  Nat.mul_pos (Nat.pow_pos (by decide)) (Nat.pow_pos (by decide))

/-- A grid finer than the range has a point in it. -/
theorem contains_of_fine {g : Int} (hlow : i.low < i.value) (hhigh : i.value < i.high)
    (hfine : (10 : ℚ) ^ g < (i.high - i.low) * 2 ^ i.unit) :
    i.contains (i.scaled i.value g / i.grid g) g = true ∨
      i.contains (i.scaled i.value g / i.grid g + 1) g = true := by
  set d := i.scaled i.value g / i.grid g with hd
  have hpos : (0 : ℚ) < 2 ^ i.unit := by positivity
  have hlowq : (i.low : ℚ) * 2 ^ i.unit < i.value * 2 ^ i.unit := by
    gcongr
  have hhighq : (i.value : ℚ) * 2 ^ i.unit < i.high * 2 ^ i.unit := by
    gcongr
  have hfloor : (d : ℚ) * 10 ^ g ≤ i.value * 2 ^ i.unit := by
    rw [← le_scaled_iff]
    exact Nat.div_mul_le_self _ _
  have hnext : (i.value : ℚ) * 2 ^ i.unit < (d + 1 : Nat) * 10 ^ g := by
    rw [← not_le, ← le_scaled_iff, not_le]
    exact Nat.lt_mul_of_div_lt (Nat.lt_succ_self _) (i.grid_pos g)
  have hstep : ((d + 1 : Nat) : ℚ) * 10 ^ g = d * 10 ^ g + 10 ^ g := by
    push_cast
    ring
  rcases lt_or_ge ((i.low : ℚ) * 2 ^ i.unit) (d * 10 ^ g) with hin | hout
  · left
    rw [contains_iff]
    refine ⟨hin.le, (hfloor.trans_lt hhighq).le, ?_⟩
    rintro (h | h)
    · exact absurd h hin.ne'
    · exact absurd h (hfloor.trans_lt hhighq).ne
  · right
    have hin : ((d + 1 : Nat) : ℚ) * 10 ^ g < i.high * 2 ^ i.unit := by
      rw [hstep]
      linarith
    rw [contains_iff]
    refine ⟨(hlowq.trans hnext).le, hin.le, ?_⟩
    rintro (h | h)
    · exact absurd h (hlowq.trans hnext).ne'
    · exact absurd h hin.ne

/-! ## The leading digit -/

/-- Ten and two are compared by `10 ^ 59 ≤ 2 ^ 196` and `2 ^ 93 ≤ 10 ^ 28`. -/
theorem ten_zpow_le {j e : Int} (hup : 196 * j ≤ 59 * e) (hdown : 93 * j ≤ 28 * e) :
    (10 : ℚ) ^ j ≤ 2 ^ e := by
  rcases le_or_gt 0 e with he | he
  · refine le_of_pow_le_pow_left₀ (n := 196) (by decide) (by positivity) ?_
    rw [← zpow_natCast, ← zpow_natCast, ← zpow_mul, ← zpow_mul]
    calc (10 : ℚ) ^ (j * (196 : Nat)) ≤ 10 ^ (59 * e) :=
          zpow_le_zpow_right₀ (by norm_num) (by push_cast; omega)
      _ = (10 ^ 59) ^ e := by rw [zpow_mul]; norm_num
      _ ≤ (2 ^ 196) ^ e := zpow_le_zpow_left₀ he (by norm_num) (by norm_num)
      _ = 2 ^ (e * (196 : Nat)) := by rw [mul_comm, zpow_mul]; norm_num
  · have hinv : ((10 : ℚ) ^ 28) ^ e ≤ (2 ^ 93) ^ e := by
      obtain ⟨k, rfl⟩ : ∃ k : Int, e = -k := ⟨-e, by omega⟩
      rw [zpow_neg, zpow_neg]
      apply inv_anti₀ (by positivity)
      exact zpow_le_zpow_left₀ (by omega) (by norm_num) (by norm_num)
    refine le_of_pow_le_pow_left₀ (n := 93) (by decide) (by positivity) ?_
    rw [← zpow_natCast, ← zpow_natCast, ← zpow_mul, ← zpow_mul]
    calc (10 : ℚ) ^ (j * (93 : Nat)) ≤ 10 ^ (28 * e) :=
          zpow_le_zpow_right₀ (by norm_num) (by push_cast; omega)
      _ = (10 ^ 28) ^ e := by rw [zpow_mul]; norm_num
      _ ≤ (2 ^ 93) ^ e := hinv
      _ = 2 ^ (e * (93 : Nat)) := by rw [mul_comm, zpow_mul]; norm_num

/-- The order is that of a power of ten below the value. -/
theorem order_le (hpos : 0 < i.value) (hlow : -2000 ≤ i.value.log2 + i.unit)
    (hhigh : i.value.log2 + i.unit ≤ 2000) : (10 : ℚ) ^ i.order ≤ i.value * 2 ^ i.unit := by
  have hreach : ∀ k : Int, i.grid k ≤ i.scaled i.value k → (10 : ℚ) ^ k ≤ i.value * 2 ^ i.unit := by
    intro k hk
    have hle := (i.le_scaled_iff i.value 1 k).mp (by rwa [one_mul])
    rwa [Nat.cast_one, one_mul] at hle
  unfold order
  simp only [decide_eq_true_eq]
  split_ifs with hnext hthis
  · exact hreach _ hnext
  · exact hreach _ hthis
  · have hlog : (2 : ℚ) ^ (i.value.log2 : Int) ≤ i.value := by
      rw [zpow_natCast]
      exact_mod_cast Nat.log2_self_le hpos.ne'
    calc (10 : ℚ) ^ ((i.value.log2 + i.unit) * 30103 / 100000 - 1)
        ≤ 2 ^ (i.value.log2 + i.unit) := ten_zpow_le (by omega) (by omega)
      _ = 2 ^ (i.value.log2 : Int) * 2 ^ i.unit := zpow_add₀ two_ne_zero ..
      _ ≤ i.value * 2 ^ i.unit := by gcongr

end Interval

/-! ## The range of a number -/

section Range

variable {x : Binary64} (h : x.magnitude ≠ 0)

theorem narrow_iff : (x.significand == twoTo 52 && decide (twoTo 53 ≤ x.magnitude)) = true ↔
    Binary64.format.Narrow x.magnitude := by
  have hexponent : twoTo 53 ≤ x.magnitude ↔
      Binary64.format.leastExponent < Binary64.format.exponent x.magnitude := by
    unfold BinaryFormat.exponent
    have hbits : twoTo Binary64.format.fractionBits = 2 ^ 52 := rfl
    have htwice : twoTo 53 = 2 ^ 53 := rfl
    rw [hbits, htwice]
    omega
  rw [Bool.and_eq_true, beq_iff_eq, decide_eq_true_eq, hexponent]
  rfl

include h

theorem significand_pos : 0 < x.significand :=
  Nat.pos_of_ne_zero fun h0 => h (Binary64.format.significand_eq_zero _ h0)

/-- The interval of a number has the reals that round to it. -/
theorem contains_interval_iff (d : Nat) (g : Int) : (interval x).contains d g = true ↔
    Binary64.format.Covers x.magnitude (d * 10 ^ g) := by
  have hpos := significand_pos h
  have hunit : (2 : ℚ) ^ (interval x).unit = 2 ^ x.exponent / 4 := by
    show (2 : ℚ) ^ (x.exponent - 2) = _
    rw [zpow_sub₀ two_ne_zero]
    norm_num
  have hlow : ((interval x).low : ℚ) * 2 ^ (interval x).unit =
      Binary64.format.lower x.magnitude := by
    rw [hunit, BinaryFormat.lower]
    by_cases hn : Binary64.format.Narrow x.magnitude
    · have hlow : (interval x).low = 4 * x.significand - 1 := if_pos (narrow_iff.mpr hn)
      rw [hlow, if_pos hn, Nat.cast_sub (by omega)]
      push_cast [Binary64.significand, Binary64.exponent]
      ring
    · have hlow : (interval x).low = 4 * x.significand - 2 := if_neg (mt narrow_iff.mp hn)
      rw [hlow, if_neg hn, Nat.cast_sub (by omega)]
      push_cast [Binary64.significand, Binary64.exponent]
      ring
  have hhigh : ((interval x).high : ℚ) * 2 ^ (interval x).unit =
      Binary64.format.upper x.magnitude := by
    rw [hunit, BinaryFormat.upper, show (interval x).high = 4 * x.significand + 2 from rfl]
    push_cast [Binary64.significand, Binary64.exponent]
    ring
  have hclosed : (interval x).closed = true ↔ Binary64.format.significand x.magnitude % 2 = 0 :=
    beq_iff_eq
  rw [Interval.contains_iff, hlow, hhigh, hclosed]
  constructor
  · rintro ⟨hle, hge, heven⟩
    exact ⟨hle, hge, heven⟩
  · intro hcovers
    exact ⟨hcovers.low, hcovers.high, hcovers.even⟩

theorem low_lt_value : (interval x).low < (interval x).value := by
  have hpos := significand_pos h
  unfold interval
  simp only
  split <;> omega

/-- The range is wider than the last place of a decimal of seventeen digits. -/
theorem value_lt_width : ((interval x).value : ℚ) <
    10 ^ 16 * ((interval x).high - (interval x).low) := by
  have hpos := significand_pos h
  have hlt : x.significand < 2 ^ 53 := Binary64.format.significand_lt x.magnitude
  have hnat : (interval x).value + 10 ^ 16 * (interval x).low < 10 ^ 16 * (interval x).high := by
    unfold interval
    simp only [Bool.and_eq_true, beq_iff_eq, show twoTo 52 = 2 ^ 52 from rfl]
    split <;> omega
  have hcast : ((interval x).value : ℚ) + 10 ^ 16 * (interval x).low <
      10 ^ 16 * (interval x).high := by exact_mod_cast hnat
  linarith

omit h in
theorem exponent_bounds (hfinite : x.isFinite = true) :
    -1074 ≤ x.exponent ∧ x.exponent ≤ 971 := by
  have hmagnitude : x.magnitude < Binary64.format.infinity := of_decide_eq_true hfinite
  rw [show Binary64.format.infinity = 2047 * 2 ^ 52 from rfl] at hmagnitude
  unfold Binary64.exponent BinaryFormat.exponent
  rw [show Binary64.format.leastExponent = -1074 from rfl,
    show twoTo Binary64.format.fractionBits = 2 ^ 52 from rfl]
  omega

theorem order_interval_le (hfinite : x.isFinite = true) :
    (10 : ℚ) ^ (interval x).order ≤ (interval x).value * 2 ^ (interval x).unit := by
  have hpos := significand_pos h
  have hlt : x.significand < 2 ^ 53 := Binary64.format.significand_lt x.magnitude
  have hbounds := exponent_bounds hfinite
  have hvalue : (interval x).value = 4 * x.significand := rfl
  have hunit : (interval x).unit = x.exponent - 2 := rfl
  have hlog : (interval x).value.log2 < 55 := (Nat.log2_lt (by omega)).mpr (by omega)
  apply Interval.order_le <;> omega

/-- Seventeen digits tell a number from all others. -/
theorem fine_grid (hfinite : x.isFinite = true) : (10 : ℚ) ^ ((interval x).order - (16 : Nat)) <
    ((interval x).high - (interval x).low) * 2 ^ (interval x).unit := by
  have hunit : (0 : ℚ) < 2 ^ (interval x).unit := by positivity
  rw [zpow_sub₀ (by norm_num), zpow_natCast, div_lt_iff₀ (by positivity)]
  calc (10 : ℚ) ^ (interval x).order ≤ (interval x).value * 2 ^ (interval x).unit :=
        order_interval_le h hfinite
    _ < 10 ^ 16 * ((interval x).high - (interval x).low) * 2 ^ (interval x).unit := by
        gcongr
        exact value_lt_width h
    _ = ((interval x).high - (interval x).low) * 2 ^ (interval x).unit * 10 ^ 16 := by ring

/-- The shortest decimal of a number rounds to it. -/
theorem covers_shortest (tie : Tie) (hfinite : x.isFinite = true) :
    Binary64.format.Covers x.magnitude (shortest tie x).value := by
  have hsome : ((interval x).onGrid? tie ((interval x).order - (16 : Nat))).isSome = true := by
    apply Interval.onGrid?_isSome
    exact Interval.contains_of_fine _ (low_lt_value h) (Nat.lt_add_of_pos_right (by decide))
      (fine_grid h hfinite)
  have hfound : ∃ d, (List.range 17).findSome? (fun n : Nat =>
      (interval x).onGrid? tie ((interval x).order - n)) = some d := by
    rw [← Option.isSome_iff_exists, List.findSome?_isSome_iff]
    exact ⟨16, by decide, hsome⟩
  obtain ⟨d, hd⟩ := hfound
  obtain ⟨n, _, hn⟩ := List.exists_of_findSome?_eq_some hd
  have hshortest : shortest tie x = stripZeros 17 d := by
    unfold shortest
    simp only
    rw [hd]
    rfl
  rw [hshortest, value_stripZeros, value, ← contains_interval_iff h]
  exact Interval.onGrid?_contains _ hn

end Range

/-! ## Reading a decimal back -/

theorem digits_lt (n : Nat) : n < 10 ^ (Nat.toDigits 10 n).length :=
  (Nat.length_toDigits_le_iff (by decide) Nat.length_toDigits_pos).mp le_rfl

theorem le_digits {n : Nat} (hn : n ≠ 0) : 10 ^ ((Nat.toDigits 10 n).length - 1) ≤ n := by
  by_contra hlt
  rw [not_le] at hlt
  have hlength : (Nat.toDigits 10 n).length - 1 ≠ 0 := by
    intro h0
    rw [h0, pow_zero] at hlt
    omega
  have hle :=
    (Nat.length_toDigits_le_iff (b := 10) (by decide) (Nat.pos_of_ne_zero hlength)).mpr hlt
  omega

/-- A decimal is between the powers of ten on either side of its order. -/
theorem order_bounds {digits : Nat} (h : digits ≠ 0) (exponent : Int) :
    (10 : ℚ) ^ ((Nat.toDigits 10 digits).length + exponent - 1) ≤ digits * 10 ^ exponent ∧
      (digits : ℚ) * 10 ^ exponent < 10 ^ ((Nat.toDigits 10 digits).length + exponent) := by
  have hpos : 0 < (Nat.toDigits 10 digits).length := Nat.length_toDigits_pos
  constructor
  · have hle : ((10 ^ ((Nat.toDigits 10 digits).length - 1) : Nat) : ℚ) ≤ digits :=
      Nat.cast_le.mpr (le_digits h)
    have hpow : (10 : ℚ) ^ ((Nat.toDigits 10 digits).length + exponent - 1) =
        (10 ^ ((Nat.toDigits 10 digits).length - 1) : Nat) * 10 ^ exponent := by
      push_cast
      rw [← zpow_natCast, ← zpow_add₀ (by norm_num)]
      congr 1
      omega
    rw [hpow]
    gcongr
  · have hlt : (digits : ℚ) < ((10 ^ (Nat.toDigits 10 digits).length : Nat) : ℚ) :=
      Nat.cast_lt.mpr (digits_lt digits)
    rw [zpow_add₀ (by norm_num), zpow_natCast]
    push_cast at hlt
    gcongr

end Decimal

namespace Binary64

variable {x : Binary64} {digits : Nat} {exponent : Int}

/-- What rounds to a number other than zero is in the range where decimals are multiplied out. -/
theorem range_of_covers (hfinite : x.isFinite = true) (h0 : x.magnitude ≠ 0) {v : ℚ}
    (h : format.Covers x.magnitude v) : (10 : ℚ) ^ (-400 : Int) ≤ v ∧ v < 10 ^ (400 : Int) := by
  obtain ⟨hlow, hhigh⟩ := Decimal.exponent_bounds hfinite
  have hpos : (1 : ℚ) ≤ x.significand := by exact_mod_cast Decimal.significand_pos h0
  constructor
  · calc (10 : ℚ) ^ (-400 : Int) ≤ 2 ^ (-1075 : Int) :=
          Decimal.Interval.ten_zpow_le (by decide) (by decide)
      _ = 1 / 2 * 2 ^ (-1074 : Int) := by
          rw [show (-1075 : Int) = -1074 - 1 from rfl, zpow_sub_one₀ two_ne_zero]
          ring
      _ ≤ 1 / 2 * 2 ^ x.exponent := by gcongr; norm_num
      _ ≤ (x.significand - 1 / 2) * 2 ^ x.exponent := by gcongr; linarith
      _ ≤ v := h.half_below
  · calc v ≤ format.upper x.magnitude := h.high
      _ < 2 ^ (x.exponent + 52 + 1) := BinaryFormat.upper_lt
      _ ≤ 2 ^ (3 * 400 : Int) := zpow_le_zpow_right₀ one_le_two (by omega)
      _ = (2 ^ (3 : Int)) ^ (400 : Int) := zpow_mul ..
      _ ≤ 10 ^ (400 : Int) := zpow_le_zpow_left₀ (by decide) (by norm_num) (by norm_num)

/-- A decimal that rounds to a number is read as that number. -/
theorem ofDecimal?_eq (hfinite : x.isFinite = true) (h0 : x.magnitude ≠ 0)
    (h : format.Covers x.magnitude (digits * 10 ^ exponent)) :
    ofDecimal? x.isNegative digits exponent = some x := by
  obtain ⟨hlow, hhigh⟩ := range_of_covers hfinite h0 h
  have hdigits : digits ≠ 0 := by
    rintro rfl
    rw [Nat.cast_zero, zero_mul] at hlow
    exact absurd hlow (not_le.mpr (by positivity))
  obtain ⟨hle, hlt⟩ := Decimal.order_bounds hdigits exponent
  have hsmall := (zpow_lt_zpow_iff_right₀ (by norm_num)).mp (hlow.trans_lt hlt)
  have hlarge := (zpow_lt_zpow_iff_right₀ (by norm_num)).mp (hle.trans_lt hhigh)
  have hmagnitude : x.magnitude < format.infinity := of_decide_eq_true hfinite
  have hnearest : format.nearest (digits * tenTo exponent.toNat) (tenTo (-exponent).toNat) =
      x.magnitude := by
    apply BinaryFormat.nearest_eq (Nat.pow_pos (by decide)) hmagnitude
    rw [zpow_eq_div (by norm_num) exponent, ← mul_div_assoc] at h
    push_cast [cast_tenTo]
    exact h
  unfold ofDecimal?
  simp only [Bool.or_eq_true, decide_eq_true_eq]
  rw [if_neg (by omega), if_neg (by omega), hnearest, if_pos hmagnitude, signed_magnitude]

end Binary64

end ShaderGraph
