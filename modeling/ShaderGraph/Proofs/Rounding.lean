import Mathlib.Algebra.Order.Field.Power
import Mathlib.Data.Nat.Cast.Field
import Mathlib.Data.Rat.Cast.Order
import Mathlib.Tactic.FieldSimp
import Mathlib.Tactic.Linarith
import Mathlib.Tactic.Positivity
import Mathlib.Tactic.Ring
import ShaderGraph.Binary

/-!
Rounding to binary floating point. A number has a range, which reaches halfway to
its neighbours on either side (`BinaryFormat.Covers`); at the first number of a
binade the neighbour below is nearer than the one above (`Narrow`). A quotient
rounds to the number whose range it is in (`nearest_eq`), so a number that is an
integer is found again from that integer, but for the sign of a zero
(`Binary64.ofInt_of_toInt?`).
-/

namespace ShaderGraph

/-! ## Powers -/

theorem cast_twoTo (n : Nat) : ((twoTo n : Nat) : ℚ) = 2 ^ n := Nat.cast_pow 2 n

theorem cast_tenTo (n : Nat) : ((tenTo n : Nat) : ℚ) = 10 ^ n := Nat.cast_pow 10 n

/-- A power with an integer exponent is the quotient of two with natural ones. -/
theorem zpow_eq_div {c : ℚ} (hc : c ≠ 0) (e : Int) : c ^ e = c ^ e.toNat / c ^ (-e).toNat := by
  rw [← zpow_natCast, ← zpow_natCast, ← zpow_sub₀ hc, Int.toNat_sub_toNat_neg]

theorem twoTo_quotient (a b : Nat) (e : Int) :
    ((a * twoTo (-e).toNat : Nat) : ℚ) / (b * twoTo e.toNat : Nat) = a / b / 2 ^ e := by
  rw [zpow_eq_div two_ne_zero e]
  push_cast [cast_twoTo]
  field_simp

/-! ## The nearest whole number -/

theorem roundDiv_cases (a b : Nat) :
    (roundDiv a b = a / b ∧ 2 * (a % b) ≤ b ∧ (2 * (a % b) = b → a / b % 2 = 0)) ∨
      (roundDiv a b = a / b + 1 ∧ b ≤ 2 * (a % b) ∧ (2 * (a % b) = b → (a / b + 1) % 2 = 0)) := by
  unfold roundDiv
  simp only [Bool.or_eq_true, Bool.and_eq_true, decide_eq_true_eq, beq_iff_eq]
  split <;> omega

/-- A quotient rounds to the whole number that is one half away at most, and to an
even one if it is that far. -/
theorem roundDiv_eq {a b m : Nat} (hb : 0 < b) (hlow : 2 * (m * b) ≤ 2 * a + b)
    (hhigh : 2 * a ≤ 2 * (m * b) + b)
    (htie : 2 * (m * b) = 2 * a + b ∨ 2 * a = 2 * (m * b) + b → m % 2 = 0) :
    roundDiv a b = m := by
  have ha : a / b * b + a % b = a := Nat.div_add_mod' a b
  have hr : a % b < b := Nat.mod_lt a hb
  have hnext : (a / b + 1) * b = a / b * b + b := Nat.succ_mul _ _
  obtain hm | rfl | rfl | hm : m + 1 ≤ a / b ∨ m = a / b ∨ m = a / b + 1 ∨ a / b + 2 ≤ m := by omega
  · have hle := Nat.mul_le_mul_right b hm
    rw [Nat.succ_mul] at hle
    omega
  · rcases roundDiv_cases a b with ⟨h, _⟩ | ⟨h, hge, heven⟩
    · exact h
    · have := heven (by omega)
      have := htie (by omega)
      omega
  · rcases roundDiv_cases a b with ⟨h, hle, heven⟩ | ⟨h, _⟩
    · have := heven (by omega)
      have := htie (by omega)
      omega
    · exact h
  · have hle := Nat.mul_le_mul_right b hm
    rw [Nat.add_mul] at hle
    omega

theorem roundDiv_eq_of_near {a b m : Nat} (hb : 0 < b) (hlow : (m : ℚ) - 1 / 2 ≤ a / b)
    (hhigh : (a : ℚ) / b ≤ m + 1 / 2)
    (htie : (a : ℚ) / b = m - 1 / 2 ∨ (a : ℚ) / b = m + 1 / 2 → m % 2 = 0) :
    roundDiv a b = m := by
  have hbq : (0 : ℚ) < b := by exact_mod_cast hb
  rw [le_div_iff₀ hbq] at hlow
  rw [div_le_iff₀ hbq] at hhigh
  rw [div_eq_iff hbq.ne', div_eq_iff hbq.ne'] at htie
  refine roundDiv_eq hb ?_ ?_ ?_
  · have : (2 : ℚ) * (m * b) ≤ 2 * a + b := by linarith
    exact_mod_cast this
  · have : (2 : ℚ) * a ≤ 2 * (m * b) + b := by linarith
    exact_mod_cast this
  · rintro (h | h)
    · have hq : (2 : ℚ) * (m * b) = 2 * a + b := by exact_mod_cast h
      exact htie (.inl (by linarith))
    · have hq : (2 : ℚ) * a = 2 * (m * b) + b := by exact_mod_cast h
      exact htie (.inr (by linarith))

theorem roundDiv_le {a b m : Nat} (hb : 0 < b) (h : a < m * b) : roundDiv a b ≤ m := by
  have hlt : a / b < m := (Nat.div_lt_iff_lt_mul hb).mpr h
  rcases roundDiv_cases a b with ⟨heq, _⟩ | ⟨heq, _⟩ <;> omega

/-! ## The order of a quotient -/

namespace BinaryFormat

/-- The binary order is the largest exponent of a power of two below the quotient. -/
theorem le_binaryOrder_iff {a b : Nat} (ha : 0 < a) (hb : 0 < b) (k : Int) :
    k ≤ binaryOrder a b ↔ (2 : ℚ) ^ k ≤ a / b := by
  have hbq : (0 : ℚ) < b := by exact_mod_cast hb
  have halow : (2 : ℚ) ^ (a.log2 : Int) ≤ a := by
    rw [zpow_natCast]; exact_mod_cast Nat.log2_self_le ha.ne'
  have hahigh : (a : ℚ) < 2 ^ ((a.log2 : Int) + 1) := by
    rw [← Nat.cast_succ, zpow_natCast]; exact_mod_cast Nat.lt_log2_self
  have hblow : (2 : ℚ) ^ (b.log2 : Int) ≤ b := by
    rw [zpow_natCast]; exact_mod_cast Nat.log2_self_le hb.ne'
  have hbhigh : (b : ℚ) < 2 ^ ((b.log2 : Int) + 1) := by
    rw [← Nat.cast_succ, zpow_natCast]; exact_mod_cast Nat.lt_log2_self
  set e : Int := (a.log2 : Int) - b.log2 with he
  -- The quotient is between the powers of two on either side of `e`.
  have hlow : (2 : ℚ) ^ (e - 1) ≤ a / b := by
    rw [le_div_iff₀ hbq]
    calc (2 : ℚ) ^ (e - 1) * b ≤ 2 ^ (e - 1) * 2 ^ ((b.log2 : Int) + 1) := by gcongr
      _ = 2 ^ (a.log2 : Int) := by rw [← zpow_add₀ two_ne_zero]; congr 1; omega
      _ ≤ a := halow
  have hhigh : (a : ℚ) / b < 2 ^ (e + 1) := by
    rw [div_lt_iff₀ hbq]
    calc (a : ℚ) < 2 ^ ((a.log2 : Int) + 1) := hahigh
      _ = 2 ^ (e + 1) * 2 ^ (b.log2 : Int) := by rw [← zpow_add₀ two_ne_zero]; congr 1; omega
      _ ≤ 2 ^ (e + 1) * b := by gcongr
  have htest : b * twoTo e.toNat ≤ a * twoTo (-e).toNat ↔ (2 : ℚ) ^ e ≤ a / b := by
    rw [zpow_eq_div two_ne_zero e, div_le_div_iff₀ (by positivity) hbq]
    rw [← Nat.cast_le (α := ℚ)]
    push_cast [cast_twoTo]
    rw [mul_comm (b : ℚ)]
  have hmono : ∀ i j : Int, i ≤ j → (2 : ℚ) ^ i ≤ 2 ^ j := fun i j h =>
    zpow_le_zpow_right₀ one_le_two h
  have hdef : binaryOrder a b = if b * twoTo e.toNat ≤ a * twoTo (-e).toNat then e else e - 1 := rfl
  rw [hdef]
  split
  · rename_i h
    rw [htest] at h
    constructor
    · intro hk
      exact (hmono _ _ hk).trans h
    · intro hk
      by_contra hlt
      exact absurd (hk.trans_lt hhigh) (not_lt.mpr (hmono _ _ (by omega)))
  · rename_i h
    rw [htest] at h
    constructor
    · intro hk
      exact (hmono _ _ hk).trans hlow
    · intro hk
      by_contra hlt
      exact h ((hmono _ _ (by omega)).trans hk)

/-! ## The fields of a number -/

variable (f : BinaryFormat) (n : Nat)

theorem leastExponent_le_exponent : f.leastExponent ≤ f.exponent n := by
  unfold exponent
  omega

theorem significand_lt : f.significand n < 2 ^ (f.fractionBits + 1) := by
  have hpos : 0 < twoTo f.fractionBits := Nat.two_pow_pos f.fractionBits
  have hmod := Nat.mod_lt n hpos
  have htwice : 2 ^ (f.fractionBits + 1) = twoTo f.fractionBits * 2 :=
    Nat.pow_succ ..
  unfold significand
  split <;> omega

theorem le_significand (h : f.leastExponent < f.exponent n) :
    2 ^ f.fractionBits ≤ f.significand n := by
  have hbits : ¬n < twoTo f.fractionBits := by
    intro hlt
    unfold exponent at h
    rw [Nat.div_eq_of_lt hlt] at h
    omega
  unfold significand
  rw [if_neg hbits]
  exact Nat.le_add_left _ _

theorem significand_eq_zero (h : f.significand n = 0) : n = 0 := by
  have hpos : 0 < twoTo f.fractionBits := Nat.two_pow_pos f.fractionBits
  unfold significand at h
  split at h <;> omega

/-- The bits of a number are those of its significand, above a step for each exponent. -/
theorem bits_eq :
    n = (f.exponent n - f.leastExponent).toNat * twoTo f.fractionBits + f.significand n := by
  have hdiv := Nat.div_add_mod' n (twoTo f.fractionBits)
  have hexponent : (f.exponent n - f.leastExponent).toNat = n / twoTo f.fractionBits - 1 := by
    unfold exponent
    omega
  rw [hexponent]
  unfold significand
  split
  · rename_i hlt
    simp [Nat.div_eq_of_lt hlt]
  · rename_i hge
    have hone : 1 ≤ n / twoTo f.fractionBits :=
      Nat.div_pos (not_lt.mp hge) (Nat.two_pow_pos f.fractionBits)
    have hsplit : (n / twoTo f.fractionBits - 1) * twoTo f.fractionBits + twoTo f.fractionBits =
        n / twoTo f.fractionBits * twoTo f.fractionBits := by
      rw [← Nat.succ_mul]
      congr 1
      omega
    omega

/-! ## What rounds to a number -/

/-- Whether the next number below is nearer than the next one above. -/
def Narrow : Prop :=
  f.significand n = 2 ^ f.fractionBits ∧ f.leastExponent < f.exponent n

instance : Decidable (f.Narrow n) := inferInstanceAs (Decidable (_ ∧ _))

/-- The middle between the number and the next one below. -/
def lower : ℚ :=
  (f.significand n - if f.Narrow n then 1 / 4 else 1 / 2) * 2 ^ f.exponent n

/-- The middle between the number and the next one above. -/
def upper : ℚ := (f.significand n + 1 / 2) * 2 ^ f.exponent n

/-- The reals that round to a number reach halfway to its neighbours; the ends
belong to an even significand. -/
structure Covers (v : ℚ) : Prop where
  low : f.lower n ≤ v
  high : v ≤ f.upper n
  even : v = f.lower n ∨ v = f.upper n → f.significand n % 2 = 0

variable {f n}

theorem upper_lt : f.upper n < 2 ^ (f.exponent n + f.fractionBits + 1) := by
  have hm : (f.significand n : ℚ) + 1 ≤ 2 ^ (f.fractionBits + 1) := by
    exact_mod_cast f.significand_lt n
  have hpow : (2 : ℚ) ^ (f.exponent n + f.fractionBits + 1) =
      2 ^ (f.fractionBits + 1) * 2 ^ f.exponent n := by
    rw [← zpow_natCast, ← zpow_add₀ two_ne_zero]
    congr 1
    push_cast
    ring
  rw [hpow, upper]
  gcongr
  linarith

namespace Covers

variable {v : ℚ} (h : f.Covers n v)

include h

theorem half_below : ((f.significand n : ℚ) - 1 / 2) * 2 ^ f.exponent n ≤ v := by
  refine le_trans ?_ h.low
  unfold lower
  gcongr
  split <;> norm_num

theorem tie (hv : v = (f.significand n - 1 / 2) * 2 ^ f.exponent n ∨
    v = (f.significand n + 1 / 2) * 2 ^ f.exponent n) : f.significand n % 2 = 0 := by
  rcases hv with hv | hv
  · refine h.even (.inl (le_antisymm ?_ h.low))
    rw [hv, lower]
    gcongr
    split <;> norm_num
  · exact h.even (.inr hv)

/-- Below the binade of a number only its first number reaches down. -/
theorem narrow (hv : v < 2 ^ (f.exponent n + f.fractionBits))
    (he : f.leastExponent < f.exponent n) : f.Narrow n := by
  refine ⟨?_, he⟩
  by_contra hne
  have hge : (2 : ℚ) ^ f.fractionBits + 1 ≤ f.significand n := by
    exact_mod_cast Nat.lt_of_le_of_ne (f.le_significand n he) (Ne.symm hne)
  have hlow := h.half_below
  rw [zpow_add₀ two_ne_zero, zpow_natCast, mul_comm] at hv
  have hlt := lt_of_mul_lt_mul_right (hlow.trans_lt hv) (by positivity)
  linarith

end Covers

section Narrow

variable (h : f.Narrow n)

include h

theorem lower_of_narrow :
    f.lower n = (2 ^ (f.fractionBits + 1) - 1 / 2) * 2 ^ (f.exponent n - 1) := by
  rw [lower, if_pos h, h.1, zpow_sub_one₀ two_ne_zero, pow_succ]
  push_cast
  ring

/-- The first number of a binade is one step past the last of the binade below. -/
theorem bits_of_narrow : (f.exponent n - 1 - f.leastExponent).toNat * twoTo f.fractionBits +
    2 ^ (f.fractionBits + 1) = n := by
  have hbits := f.bits_eq n
  have hleast := h.2
  have hsteps : (f.exponent n - f.leastExponent).toNat =
      (f.exponent n - 1 - f.leastExponent).toNat + 1 := by omega
  rw [hsteps, Nat.succ_mul, h.1] at hbits
  rw [Nat.pow_succ]
  unfold twoTo at hbits ⊢
  simp only [Nat.pow_eq] at hbits ⊢
  omega

end Narrow

section Nearest

variable {a b : Nat} (ha : 0 < a) (hb : 0 < b)

include ha hb

/-- Rounding once the exponent is known. -/
theorem nearest_of_exponent {e : Int} {m : Nat}
    (he : max (binaryOrder a b - f.fractionBits) f.leastExponent = e)
    (hlow : ((m : ℚ) - 1 / 2) * 2 ^ e ≤ a / b) (hhigh : (a : ℚ) / b ≤ (m + 1 / 2) * 2 ^ e)
    (htie : (a : ℚ) / b = (m - 1 / 2) * 2 ^ e ∨ (a : ℚ) / b = (m + 1 / 2) * 2 ^ e → m % 2 = 0) :
    f.nearest a b = min ((e - f.leastExponent).toNat * twoTo f.fractionBits + m) f.infinity := by
  have hpos : (0 : ℚ) < 2 ^ e := by positivity
  have hbpos : 0 < b * twoTo e.toNat := Nat.mul_pos hb (Nat.two_pow_pos _)
  have hround : roundDiv (a * twoTo (-e).toNat) (b * twoTo e.toNat) = m := by
    apply roundDiv_eq_of_near hbpos <;> rw [twoTo_quotient]
    · exact (le_div_iff₀ hpos).mpr hlow
    · exact (div_le_iff₀ hpos).mpr hhigh
    · rw [div_eq_iff hpos.ne', div_eq_iff hpos.ne']
      exact htie
  unfold nearest
  rw [if_neg ha.ne']
  simp only
  rw [he, hround]

theorem Covers.exponent_le (h : f.Covers n (a / b)) :
    max (binaryOrder a b - f.fractionBits) f.leastExponent ≤ f.exponent n := by
  have hnot : ¬f.exponent n + f.fractionBits + 1 ≤ binaryOrder a b := by
    rw [le_binaryOrder_iff ha hb, not_le]
    exact h.high.trans_lt upper_lt
  have hleast := f.leastExponent_le_exponent n
  omega

/-- A quotient below the binade of a number that it rounds to is in the binade right below. -/
theorem Covers.exponent_eq (h : f.Covers n (a / b)) (hnarrow : f.Narrow n)
    (hlt : max (binaryOrder a b - f.fractionBits) f.leastExponent < f.exponent n) :
    max (binaryOrder a b - f.fractionBits) f.leastExponent = f.exponent n - 1 := by
  have hreach : f.exponent n - 1 + f.fractionBits ≤ binaryOrder a b := by
    have hlow := h.low
    rw [lower_of_narrow hnarrow] at hlow
    rw [le_binaryOrder_iff ha hb]
    refine le_trans ?_ hlow
    rw [zpow_add₀ two_ne_zero, mul_comm, zpow_natCast]
    gcongr
    have hone : (1 : ℚ) ≤ 2 ^ f.fractionBits := one_le_pow₀ one_le_two
    rw [pow_succ]
    linarith
  omega

end Nearest

/-- Rounding gives the number whose range has the quotient. -/
theorem nearest_eq {a b : Nat} (hb : 0 < b) (hn : n < f.infinity) (h : f.Covers n (a / b)) :
    f.nearest a b = n := by
  rcases Nat.eq_zero_or_pos a with rfl | ha
  · have hlow := h.half_below
    rw [Nat.cast_zero, zero_div] at hlow
    have hm : (f.significand n : ℚ) < 1 := by
      have := nonpos_of_mul_nonpos_left hlow (by positivity)
      linarith
    exact (f.significand_eq_zero n (Nat.lt_one_iff.mp (by exact_mod_cast hm))).symm
  rcases (h.exponent_le ha hb).eq_or_lt with heq | hlt
  · rw [nearest_of_exponent ha hb heq h.half_below h.high h.tie, ← f.bits_eq n]
    exact min_eq_left hn.le
  · -- The quotient is below the binade of `n`, and so close to it that it rounds up into it.
    have hbelow : (a : ℚ) / b < 2 ^ (f.exponent n + f.fractionBits) := by
      rw [← not_le, ← le_binaryOrder_iff ha hb]
      omega
    have hnarrow := h.narrow hbelow (by omega)
    have hlow := h.low
    rw [lower_of_narrow hnarrow] at hlow
    have hpow : (2 : ℚ) ^ (f.exponent n + f.fractionBits) =
        2 ^ (f.fractionBits + 1) * 2 ^ (f.exponent n - 1) := by
      rw [← zpow_natCast, ← zpow_add₀ two_ne_zero]
      congr 1
      push_cast
      ring
    rw [nearest_of_exponent (m := 2 ^ (f.fractionBits + 1)) ha hb (h.exponent_eq ha hb hnarrow hlt),
      bits_of_narrow hnarrow]
    · exact min_eq_left hn.le
    · push_cast
      exact hlow
    · push_cast
      refine hbelow.le.trans ?_
      rw [hpow]
      gcongr
      linarith
    · intro _
      rw [Nat.pow_succ]
      omega

/-- A number's own value is well inside its range. -/
theorem covers_self : f.Covers n (f.significand n * 2 ^ f.exponent n) := by
  have hpos : (0 : ℚ) < 2 ^ f.exponent n := by positivity
  have hlow : f.lower n < f.significand n * 2 ^ f.exponent n := by
    unfold lower
    gcongr
    split <;> norm_num
  have hhigh : f.significand n * 2 ^ f.exponent n < f.upper n := by
    unfold upper
    gcongr
    norm_num
  refine ⟨hlow.le, hhigh.le, ?_⟩
  rintro (h | h)
  · exact absurd h hlow.ne'
  · exact absurd h hhigh.ne

/-- Rounding leaves a binade at most for the first number of the next one. -/
theorem nearest_le {a b : Nat} (hb : 0 < b) {k : Int} (hk : f.leastExponent ≤ k)
    (h : (a : ℚ) / b < 2 ^ (k + f.fractionBits + 1)) :
    f.nearest a b ≤
      (k - f.leastExponent).toNat * twoTo f.fractionBits + 2 ^ (f.fractionBits + 1) := by
  rcases Nat.eq_zero_or_pos a with rfl | ha
  · exact Nat.zero_le _
  have horder : ¬k + f.fractionBits + 1 ≤ binaryOrder a b := by
    rwa [le_binaryOrder_iff ha hb, not_le]
  unfold nearest
  rw [if_neg ha.ne']
  simp only
  set e := max (binaryOrder a b - f.fractionBits) f.leastExponent with he
  have hpos : (0 : ℚ) < 2 ^ e := by positivity
  have hbpos : 0 < b * twoTo e.toNat := Nat.mul_pos hb (Nat.two_pow_pos _)
  have hbelow : (a : ℚ) / b < 2 ^ (e + f.fractionBits + 1) := by
    rw [← not_le, ← le_binaryOrder_iff ha hb]
    omega
  have hround : roundDiv (a * twoTo (-e).toNat) (b * twoTo e.toNat) ≤ 2 ^ (f.fractionBits + 1) := by
    apply roundDiv_le hbpos
    have hquotient := twoTo_quotient a b e
    rw [div_eq_iff (by positivity)] at hquotient
    have hlt : ((a * twoTo (-e).toNat : Nat) : ℚ) <
        2 ^ (f.fractionBits + 1) * (b * twoTo e.toNat : Nat) := by
      rw [hquotient]
      gcongr
      rw [div_lt_iff₀ hpos]
      refine hbelow.trans_eq ?_
      rw [← zpow_natCast, ← zpow_add₀ two_ne_zero]
      congr 1
      push_cast
      ring
    exact_mod_cast hlt
  have hsteps : (e - f.leastExponent).toNat * twoTo f.fractionBits ≤
      (k - f.leastExponent).toNat * twoTo f.fractionBits :=
    Nat.mul_le_mul_right _ (by omega)
  omega

end BinaryFormat

/-! ## Numbers of 64 bits -/

namespace Binary64

theorem signed_magnitude (x : Binary64) : signed x.isNegative x.magnitude = x := by
  have hlt := x.bits.toNat_lt
  have hbits : x.magnitude + (if x.isNegative then format.signBit else 0) = x.bits.toNat := by
    simp only [magnitude, isNegative, show format.signBit = 2 ^ 63 from rfl, decide_eq_true_eq]
    split <;> omega
  unfold signed
  rw [hbits]
  simp

theorem toNat_signed {negative : Bool} {m : Nat} (h : m < 2 ^ 63) :
    (signed negative m).bits.toNat = m + if negative then 2 ^ 63 else 0 := by
  have hlt : m + (if negative then format.signBit else 0) < 2 ^ 64 := by
    simp only [show format.signBit = 2 ^ 63 from rfl]
    split <;> omega
  unfold signed
  rw [Nat.toUInt64, UInt64.toNat_ofNat_of_lt' hlt]
  rfl

theorem magnitude_signed {negative : Bool} {m : Nat} (h : m < 2 ^ 63) :
    (signed negative m).magnitude = m := by
  rw [magnitude, toNat_signed h, show format.signBit = 2 ^ 63 from rfl]
  split <;> omega

theorem infinity_lt : format.infinity < 2 ^ 63 := by decide

theorem isFinite_signed {negative : Bool} {m : Nat} (h : m < format.infinity) :
    (signed negative m).isFinite = true := by
  rw [isFinite, magnitude_signed (h.trans infinity_lt)]
  exact decide_eq_true h

/-- What saving a number keeps of it: all but the sign of a zero. -/
def saved (x : Binary64) : Binary64 := if x.magnitude = 0 then ⟨0⟩ else x

/-- The value of a number, sign aside. -/
def size (x : Binary64) : ℚ := x.significand * 2 ^ x.exponent

theorem size_eq_zero_iff {x : Binary64} : x.size = 0 ↔ x.magnitude = 0 := by
  unfold size significand
  rw [mul_eq_zero, or_iff_left (by positivity), Nat.cast_eq_zero]
  constructor
  · exact format.significand_eq_zero _
  · intro h
    rw [h]
    rfl

/-- The integer that a number is has its value. -/
theorem toInt?_eq_some {x : Binary64} {n : Int} (h : x.toInt? = some n) :
    x.isFinite = true ∧ (n.natAbs : ℚ) = x.size ∧ (n < 0 ↔ x.isNegative = true ∧ n ≠ 0) := by
  unfold toInt? at h
  split at h
  · cases h
  · rename_i hfinite
    simp only at h
    split at h
    · rename_i hmod
      have hdvd : twoTo (-x.exponent).toNat ∣ x.significand * twoTo x.exponent.toNat :=
        Dvd.dvd.mul_right (Nat.dvd_of_mod_eq_zero (beq_iff_eq.mp hmod)) _
      have hsize :
          ((x.significand * twoTo x.exponent.toNat / twoTo (-x.exponent).toNat : Nat) : ℚ) =
            x.size := by
        rw [Nat.cast_div hdvd (by rw [cast_twoTo]; positivity), size,
          zpow_eq_div two_ne_zero x.exponent]
        push_cast [cast_twoTo]
        ring
      generalize x.significand * twoTo x.exponent.toNat / twoTo (-x.exponent).toNat = k at h hsize
      rw [Bool.not_eq_true, Bool.not_eq_false'] at hfinite
      cases hneg : x.isNegative with
      | false =>
        rw [hneg, if_neg Bool.false_ne_true, Option.some.injEq] at h
        subst h
        refine ⟨hfinite, by simpa using hsize, by simp⟩
      | true =>
        rw [hneg, if_pos rfl, Option.some.injEq] at h
        subst h
        refine ⟨hfinite, by simpa using hsize, ?_⟩
        constructor
        · intro hlt
          exact ⟨rfl, hlt.ne⟩
        · rintro ⟨_, hne⟩
          omega
    · cases h

/-- An integer that a number is reads back as that number, but for the sign of a zero. -/
theorem ofInt_of_toInt? {x : Binary64} {n : Int} (h : x.toInt? = some n) : ofInt n = x.saved := by
  obtain ⟨hfinite, hsize, hneg⟩ := toInt?_eq_some h
  have hmagnitude : x.magnitude < format.infinity := of_decide_eq_true hfinite
  have hnearest : format.nearest n.natAbs 1 = x.magnitude := by
    apply BinaryFormat.nearest_eq Nat.one_pos hmagnitude
    rw [Nat.cast_one, div_one, hsize]
    exact BinaryFormat.covers_self
  have hzero : n = 0 ↔ x.magnitude = 0 := by
    rw [← size_eq_zero_iff, ← hsize, Nat.cast_eq_zero, Int.natAbs_eq_zero]
  unfold ofInt saved
  rw [hnearest]
  by_cases h0 : x.magnitude = 0
  · rw [if_pos h0, h0, hzero.mpr h0]
    rfl
  · have hsign : decide (n < 0) = x.isNegative := by
      rw [Bool.eq_iff_iff, decide_eq_true_iff, hneg, and_iff_left (mt hzero.mp h0)]
    rw [if_neg h0, hsign]
    exact x.signed_magnitude

/-- An integer of a JSON text is not too large for the format. -/
theorem isFinite_ofInt {n : Int} (h : n.natAbs ≤ 2 ^ 64) : (ofInt n).isFinite = true := by
  apply isFinite_signed
  have hle := BinaryFormat.nearest_le (f := format) (a := n.natAbs) (k := 12) Nat.one_pos
    (by decide) (by
      rw [Nat.cast_one, div_one]
      have : (n.natAbs : ℚ) ≤ 2 ^ 64 := by exact_mod_cast h
      refine this.trans_lt ?_
      norm_num [BinaryFormat.binary64])
  refine hle.trans_lt ?_
  decide

end Binary64

end ShaderGraph
