import Mathlib.Algebra.Order.Field.Power
import Mathlib.Data.Rat.Cast.Order
import Mathlib.Tactic.FieldSimp
import Mathlib.Tactic.Linarith
import Mathlib.Tactic.Positivity
import Mathlib.Tactic.Ring
import Transact.Number.Decimal
import Transact.Proofs.Text.Digits

/-!
# Rounding to the nearest double

The fractions that are rounded to a double are an interval around it, with its ends when the
significand is even. Main statements:

* `Binary64.exponentFor_eq`: the exponent of a fraction is fixed by the two powers of two around it.
* `Binary64.ofRatio?_of_attracts`: a fraction in the interval of a double is rounded to it.
* `Decimal.toBinary64?_of_attracts`: the same for a decimal, whose length never misleads the reader
  there.
-/

set_option autoImplicit false

namespace Transact.Number

open Transact.Text

namespace Binary64

/-! ## The interval of a double -/

/-- The half-way point to the next smaller double, in quarters of the last place from the double.
Below a power of two the doubles are twice as dense. -/
def below (x : Binary64) : Nat :=
  if x.significand = leastFull ∧ -1074 < x.exponent then 1 else 2

/-- The half-way point to the next smaller double. -/
def lower (x : Binary64) : ℚ := ((4 * x.significand - x.below : ℕ) : ℚ) * 2 ^ (x.exponent - 2)

/-- The half-way point to the next larger double. -/
def upper (x : Binary64) : ℚ := ((4 * x.significand + 2 : ℕ) : ℚ) * 2 ^ (x.exponent - 2)

/-- The magnitude `q` is nearer to `x` than to any other double, or half-way and `x` is even. -/
structure Attracts (x : Binary64) (q : ℚ) : Prop where
  above : x.lower < q ∨ (x.significand % 2 = 0 ∧ x.lower = q)
  under : q < x.upper ∨ (x.significand % 2 = 0 ∧ q = x.upper)

theorem Attracts.lower_le {x : Binary64} {q : ℚ} (h : x.Attracts q) : x.lower ≤ q := by
  rcases h.above with h | ⟨-, h⟩
  · exact h.le
  · exact h.le

theorem Attracts.le_upper {x : Binary64} {q : ℚ} (h : x.Attracts q) : q ≤ x.upper := by
  rcases h.under with h | ⟨-, h⟩
  · exact h.le
  · exact h.le

theorem below_le (x : Binary64) : x.below ≤ 2 := by
  unfold below
  split <;> omega

theorem Attracts.pos {x : Binary64} {q : ℚ} (hx : 0 < x.significand) (h : x.Attracts q) :
    0 < q := by
  have hbelow := x.below_le
  have hpos : 0 < 4 * x.significand - x.below := by omega
  exact (mul_pos (by exact_mod_cast hpos) (zpow_pos two_pos _)).trans_le h.lower_le

/-! ## Rounding a fraction to an integer -/

/-- An integer is the rounded fraction when it is at most a half away from it, and even if it is
exactly a half away. -/
theorem roundHalfEven_eq {n d m : Nat} (hd : 0 < d)
    (hlow : 2 * (m * d) < 2 * n + d ∨ (m % 2 = 0 ∧ 2 * (m * d) = 2 * n + d))
    (hhigh : 2 * n < 2 * (m * d) + d ∨ (m % 2 = 0 ∧ 2 * n = 2 * (m * d) + d)) :
    roundHalfEven n d = m := by
  have hsplit : d * (n / d) + n % d = n := Nat.div_add_mod n d
  have hrest : n % d < d := Nat.mod_lt n hd
  rw [Nat.mul_comm] at hsplit
  -- the rounded fraction is one of the two integers next to it
  have hle : m ≤ n / d + 1 := by
    by_contra hlt
    have := Nat.mul_le_mul_right d (show n / d + 2 ≤ m by omega)
    rw [Nat.add_mul] at this
    omega
  have hge : n / d ≤ m := by
    by_contra hlt
    have := Nat.mul_le_mul_right d (show m + 1 ≤ n / d by omega)
    rw [Nat.add_mul] at this
    omega
  unfold roundHalfEven
  rcases Nat.lt_or_ge (n / d) m with hlt | hge'
  · obtain rfl : m = n / d + 1 := by omega
    rw [Nat.add_mul] at hlow hhigh
    rw [if_neg (by omega)]
  · obtain rfl : m = n / d := by omega
    rw [if_pos (by omega)]

/-- The same, with the fraction as a rational number. -/
theorem roundHalfEven_of_rat {n d m : Nat} (hd : 0 < d)
    (hlow : (m : ℚ) - 1 / 2 < n / d ∨ (m % 2 = 0 ∧ (m : ℚ) - 1 / 2 = n / d))
    (hhigh : (n : ℚ) / d < m + 1 / 2 ∨ (m % 2 = 0 ∧ (n : ℚ) / d = m + 1 / 2)) :
    roundHalfEven n d = m := by
  have hd' : (0 : ℚ) < d := by exact_mod_cast hd
  apply roundHalfEven_eq hd
  · rcases hlow with h | ⟨he, h⟩
    · left
      rw [lt_div_iff₀ hd'] at h
      have : (2 * (m * d) : ℚ) < 2 * n + d := by linarith
      exact_mod_cast this
    · right
      rw [eq_div_iff hd'.ne'] at h
      have : (2 * (m * d) : ℚ) = 2 * n + d := by linarith
      exact ⟨he, by exact_mod_cast this⟩
  · rcases hhigh with h | ⟨he, h⟩
    · left
      rw [div_lt_iff₀ hd'] at h
      have : (2 * n : ℚ) < 2 * (m * d) + d := by linarith
      exact_mod_cast this
    · right
      rw [div_eq_iff hd'.ne'] at h
      have : (2 * n : ℚ) = 2 * (m * d) + d := by linarith
      exact ⟨he, by exact_mod_cast this⟩

/-! ## The exponent of a fraction -/

theorem zpow_eq_toNat {b : ℚ} (hb : b ≠ 0) (e : Int) : b ^ e = b ^ e.toNat / b ^ (-e).toNat := by
  rw [← zpow_natCast b e.toNat, ← zpow_natCast b (-e).toNat, ← zpow_sub₀ hb]
  congr 1
  omega

theorem inUnits_pos {n d : Nat} (hd : 0 < d) (e : Int) : 0 < (inUnits n d e).2 :=
  Nat.mul_pos hd (Nat.pow_pos (by decide))

/-- Measuring in units of `2^e` divides by `2^e`. -/
theorem inUnits_div (n d : Nat) (e : Int) :
    ((inUnits n d e).1 : ℚ) / (inUnits n d e).2 = n / d / 2 ^ e := by
  rw [zpow_eq_toNat two_ne_zero e, inUnits]
  simp only [Nat.pow_eq]
  push_cast
  rw [div_div_eq_mul_div, div_mul_eq_mul_div, div_div]

theorem two_zpow_log2_le {n : Nat} (hn : 0 < n) : (2 : ℚ) ^ (n.log2 : Int) ≤ n := by
  rw [zpow_natCast]
  exact_mod_cast Nat.log2_self_le hn.ne'

theorem lt_two_zpow_log2 (n : Nat) : (n : ℚ) < 2 ^ ((n.log2 : Int) + 1) := by
  have := Nat.lt_log2_self (n := n)
  rw [← Int.natCast_succ, zpow_natCast]
  exact_mod_cast this

/-- A fraction lies between two powers of two that the bit lengths of its sides give. -/
theorem div_mem_binades {n d : Nat} (hn : 0 < n) (hd : 0 < d) :
    (2 : ℚ) ^ ((n.log2 : Int) - d.log2 - 1) ≤ n / d ∧
      (n : ℚ) / d < 2 ^ ((n.log2 : Int) - d.log2 + 1) := by
  have hd' : (0 : ℚ) < d := by exact_mod_cast hd
  have hn' : (0 : ℚ) < n := by exact_mod_cast hn
  have hpow : ∀ i : Int, (0 : ℚ) < 2 ^ i := fun i => zpow_pos two_pos i
  constructor
  · rw [show (n.log2 : Int) - d.log2 - 1 = n.log2 - (d.log2 + 1) by ring, zpow_sub₀ two_ne_zero]
    exact div_le_div₀ hn'.le (two_zpow_log2_le hn) hd' (lt_two_zpow_log2 d).le
  · rw [show (n.log2 : Int) - d.log2 + 1 = (n.log2 + 1) - d.log2 by ring, zpow_sub₀ two_ne_zero]
    exact div_lt_div₀ (lt_two_zpow_log2 n) (two_zpow_log2_le hd) (hpow _).le (hpow _)

/-- A fraction has a significand of 53 bits at the exponent `e`, or less and `e` is the least
one. -/
structure Fits (q : ℚ) (e : Int) : Prop where
  least_le : -1074 ≤ e
  lt_full : q < 2 ^ (e + 53)
  full_le : e = -1074 ∨ 2 ^ (e + 52) ≤ q

theorem Fits.le {q : ℚ} {e f : Int} (he : Fits q e) (hf : Fits q f) : e ≤ f := by
  rcases he.full_le with h | h
  · rw [h]
    exact hf.least_le
  · have := (zpow_lt_zpow_iff_right₀ one_lt_two).1 (h.trans_lt hf.lt_full)
    omega

theorem Fits.unique {q : ℚ} {e f : Int} (he : Fits q e) (hf : Fits q f) : e = f :=
  le_antisymm (he.le hf) (hf.le he)

/-- The quotient in units of `2^e` has more than 53 bits when the fraction is that large. -/
theorem fullBound_le_inUnits_iff {n d : Nat} (hd : 0 < d) (e : Int) :
    fullBound ≤ (inUnits n d e).1 / (inUnits n d e).2 ↔ (2 : ℚ) ^ (e + 53) ≤ n / d := by
  have hb := inUnits_pos (n := n) hd e
  have hb' : (0 : ℚ) < (inUnits n d e).2 := by exact_mod_cast hb
  rw [Nat.le_div_iff_mul_le hb, zpow_add₀ two_ne_zero, mul_comm (2 ^ e),
    ← le_div_iff₀ (zpow_pos two_pos e), ← inUnits_div, le_div_iff₀ hb', ← Nat.cast_le (α := ℚ)]
  push_cast
  norm_num

theorem fits_exponentFor {n d : Nat} (hn : 0 < n) (hd : 0 < d) :
    Fits (n / d) (exponentFor n d) := by
  obtain ⟨hlow, hhigh⟩ := div_mem_binades hn hd
  have hmono : ∀ {i j : Int}, i ≤ j → (2 : ℚ) ^ i ≤ 2 ^ j := fun h =>
    zpow_le_zpow_right₀ one_le_two h
  have heq : exponentFor n d =
      if fullBound ≤ (inUnits n d (max ((n.log2 : Int) - d.log2 - 53) (-1074))).1 /
          (inUnits n d (max ((n.log2 : Int) - d.log2 - 53) (-1074))).2 then
        max ((n.log2 : Int) - d.log2 - 53) (-1074) + 1
      else max ((n.log2 : Int) - d.log2 - 53) (-1074) := rfl
  rw [heq]
  generalize hleast : max ((n.log2 : Int) - d.log2 - 53) (-1074) = least
  by_cases hfull : (2 : ℚ) ^ (least + 53) ≤ n / d
  · rw [if_pos ((fullBound_le_inUnits_iff hd least).2 hfull)]
    refine ⟨by omega, hhigh.trans_le (hmono (by omega)), .inr ?_⟩
    rwa [show least + 1 + 52 = least + 53 by ring]
  · rw [if_neg (mt (fullBound_le_inUnits_iff hd least).1 hfull)]
    refine ⟨by omega, not_le.1 hfull, ?_⟩
    by_cases hl : least = -1074
    · exact .inl hl
    · exact .inr ((hmono (by omega)).trans hlow)

theorem exponentFor_eq {n d : Nat} {e : Int} (hn : 0 < n) (hd : 0 < d) (h : Fits (n / d) e) :
    exponentFor n d = e :=
  (fits_exponentFor hn hd).unique h

/-! ## Rounding a fraction to a double -/

theorem lower_eq {x : Binary64} (hx : 0 < x.significand) :
    x.lower = (x.significand - x.below / 4) * 2 ^ x.exponent := by
  have hle : x.below ≤ 4 * x.significand := by
    have := x.below_le
    omega
  rw [lower, Nat.cast_sub hle, zpow_sub₀ two_ne_zero]
  push_cast
  ring

theorem upper_eq (x : Binary64) : x.upper = (x.significand + 1 / 2) * 2 ^ x.exponent := by
  rw [upper, zpow_sub₀ two_ne_zero]
  push_cast
  ring

theorem ofParts?_parts (negative : Bool) (x : Binary64) :
    ofParts? negative x.significand x.exponent = some { x with negative } :=
  dif_pos ⟨x.significand_lt, x.le_exponent, x.exponent_le, x.canonical⟩

theorem Attracts.lt_full {x : Binary64} {q : ℚ} (h : x.Attracts q) :
    q < 2 ^ (x.exponent + 53) := by
  have hm : (x.significand : ℚ) + 1 ≤ 2 ^ (53 : Int) := by
    have := x.significand_lt
    norm_num
    exact_mod_cast this
  have hpos : (0 : ℚ) < 2 ^ x.exponent := zpow_pos two_pos _
  calc q ≤ (x.significand + 1 / 2) * 2 ^ x.exponent := x.upper_eq ▸ h.le_upper
    _ < 2 ^ (53 : Int) * 2 ^ x.exponent := by
      apply mul_lt_mul_of_pos_right _ hpos
      linarith
    _ = 2 ^ (x.exponent + 53) := by rw [zpow_add₀ two_ne_zero, mul_comm]

/-- In the interval of a double a fraction has the exponent of the double, but for the quarter
below a power of two. -/
theorem Attracts.fits_or {x : Binary64} {q : ℚ} (hx : 0 < x.significand) (h : x.Attracts q) :
    Fits q x.exponent ∨
      x.significand = leastFull ∧ -1074 < x.exponent ∧ q < 2 ^ (x.exponent + 52) := by
  by_cases hleast : x.exponent = -1074
  · exact .inl ⟨x.le_exponent, h.lt_full, .inl hleast⟩
  rcases le_or_gt (2 ^ (x.exponent + 52)) q with hfull | hsmall
  · exact .inl ⟨x.le_exponent, h.lt_full, .inr hfull⟩
  · have hm := x.canonical.resolve_left hleast
    have he : -1074 < x.exponent := lt_of_le_of_ne x.le_exponent (Ne.symm hleast)
    refine .inr ⟨?_, he, hsmall⟩
    -- a larger significand is more than a half away from the power of two
    by_contra hne
    have hm' : (2 : ℚ) ^ (52 : Int) + 1 ≤ x.significand := by
      have : leastFull + 1 ≤ x.significand := by omega
      norm_num
      exact_mod_cast this
    have hbelow : (x.below : ℚ) ≤ 2 := by exact_mod_cast x.below_le
    have hlow := h.lower_le
    rw [lower_eq hx] at hlow
    rw [zpow_add₀ two_ne_zero, mul_comm] at hsmall
    have := lt_of_mul_lt_mul_right (hlow.trans_lt hsmall) (zpow_nonneg zero_le_two _)
    linarith

theorem roundHalfEven_of_fits {x : Binary64} {n d : Nat} (hx : 0 < x.significand) (hd : 0 < d)
    (h : x.Attracts (n / d)) :
    roundHalfEven (inUnits n d x.exponent).1 (inUnits n d x.exponent).2 = x.significand := by
  have hpos : (0 : ℚ) < 2 ^ x.exponent := zpow_pos two_pos _
  have hbelow : (x.below : ℚ) ≤ 2 := by exact_mod_cast x.below_le
  apply roundHalfEven_of_rat (inUnits_pos hd _)
  · rw [inUnits_div, lt_div_iff₀ hpos, eq_div_iff hpos.ne']
    have hle : ((x.significand : ℚ) - 1 / 2) * 2 ^ x.exponent ≤ x.lower := by
      rw [lower_eq hx]
      apply mul_le_mul_of_nonneg_right _ hpos.le
      linarith
    rcases h.above with hlt | ⟨heven, heq⟩
    · exact .inl (hle.trans_lt hlt)
    · rcases hle.lt_or_eq with hlt | heq'
      · exact .inl (heq ▸ hlt)
      · exact .inr ⟨heven, heq'.trans heq⟩
  · rw [inUnits_div, div_lt_iff₀ hpos, div_eq_iff hpos.ne', ← upper_eq]
    exact h.under

/-- In the quarter below a power of two, measured in the denser doubles there, a fraction is rounded
up to the power. -/
theorem roundHalfEven_of_lt {x : Binary64} {n d : Nat} (hd : 0 < d)
    (hm : x.significand = leastFull) (he : -1074 < x.exponent) (h : x.Attracts (n / d))
    (hlt : (n : ℚ) / d < 2 ^ (x.exponent + 52)) :
    roundHalfEven (inUnits n d (x.exponent - 1)).1 (inUnits n d (x.exponent - 1)).2 =
      fullBound := by
  have hx : 0 < x.significand := by rw [hm]; decide
  have hbelow : x.below = 1 := if_pos ⟨hm, he⟩
  have hpos : (0 : ℚ) < 2 ^ (x.exponent - 1) := zpow_pos two_pos _
  have htwice : (2 : ℚ) ^ x.exponent = 2 * 2 ^ (x.exponent - 1) := by
    rw [← zpow_one_add₀ two_ne_zero]
    congr 1
    ring
  have hlow := h.lower_le
  rw [lower_eq hx, hm, hbelow, htwice] at hlow
  rw [zpow_add₀ two_ne_zero, htwice] at hlt
  apply roundHalfEven_of_rat (inUnits_pos hd _)
  · rw [inUnits_div, lt_div_iff₀ hpos, eq_div_iff hpos.ne']
    have hle : ((fullBound : ℕ) - 1 / 2 : ℚ) * 2 ^ (x.exponent - 1) ≤ n / d := by
      push_cast at hlow ⊢
      linarith
    rcases hle.lt_or_eq with h | h
    · exact .inl h
    · exact .inr ⟨by decide, h⟩
  · left
    rw [inUnits_div, div_lt_iff₀ hpos]
    norm_num at hlt ⊢
    linarith

/-- A fraction is rounded in the units of its exponent. A significand of 54 bits is that of the next
power of two. -/
theorem ofRatio?_eq {n d : Nat} {e : Int} (negative : Bool) (hn : 0 < n) (hd : 0 < d)
    (h : Fits (n / d) e) :
    ofRatio? negative n d =
      if roundHalfEven (inUnits n d e).1 (inUnits n d e).2 = fullBound then
        ofParts? negative leastFull (e + 1)
      else ofParts? negative (roundHalfEven (inUnits n d e).1 (inUnits n d e).2) e := by
  rw [← exponentFor_eq hn hd h]
  exact if_neg hn.ne'

/-- A fraction in the interval of a double is rounded to it. -/
theorem ofRatio?_of_attracts {x : Binary64} {n d : Nat} (negative : Bool) (hx : 0 < x.significand)
    (hn : 0 < n) (hd : 0 < d) (h : x.Attracts (n / d)) :
    ofRatio? negative n d = some { x with negative } := by
  rcases h.fits_or hx with hfits | ⟨hm, he, hlt⟩
  · rw [ofRatio?_eq negative hn hd hfits, roundHalfEven_of_fits hx hd h,
      if_neg x.significand_lt.ne, ofParts?_parts]
  · have hfits : Fits (n / d) (x.exponent - 1) := by
      refine ⟨by omega, ?_, .inr ?_⟩
      · rwa [show x.exponent - 1 + 53 = x.exponent + 52 by ring]
      · refine le_trans ?_ h.lower_le
        rw [lower_eq hx, hm, show x.exponent - 1 + 52 = x.exponent + 51 by ring,
          zpow_add₀ two_ne_zero, mul_comm]
        apply mul_le_mul_of_nonneg_right _ (zpow_nonneg zero_le_two _)
        have : (x.below : ℚ) ≤ 2 := by exact_mod_cast x.below_le
        norm_num
        linarith
    rw [ofRatio?_eq negative hn hd hfits, roundHalfEven_of_lt hd hm he h hlt, if_pos rfl, ← hm,
      sub_add_cancel, ofParts?_parts]

end Binary64

/-! ## Rounding a decimal -/

namespace Decimal

open Binary64

/-- The value of a decimal without its sign. -/
def magnitude (d : Decimal) : ℚ := d.coefficient * 10 ^ d.exponent

/-- The number of digits before the point, or the negated number of zeros after it. -/
def size (d : Decimal) : Int := (digits d.coefficient).length + d.exponent

theorem magnitude_eq_ratio (d : Decimal) :
    d.magnitude = (d.coefficient * Nat.pow 10 d.exponent.toNat : ℕ) /
      (Nat.pow 10 (-d.exponent).toNat : ℕ) := by
  rw [magnitude, zpow_eq_toNat (by norm_num)]
  simp only [Nat.pow_eq]
  push_cast
  rw [mul_div_assoc]

theorem coefficient_pos {d : Decimal} (h : 0 < d.magnitude) : 0 < d.coefficient := by
  rcases Nat.eq_zero_or_pos d.coefficient with hd | hd
  · rw [magnitude, hd, Nat.cast_zero, zero_mul] at h
    exact absurd h (lt_irrefl _)
  · exact hd

theorem magnitude_lt (d : Decimal) : d.magnitude < 10 ^ d.size := by
  have hlen : 0 < (digits d.coefficient).length := List.length_pos_iff.2 (digits_ne_nil _)
  have hlt : (d.coefficient : ℚ) < 10 ^ (digits d.coefficient).length := by
    exact_mod_cast (length_digits_le_iff hlen).1 le_rfl
  rw [magnitude, size, zpow_add₀ (by norm_num), zpow_natCast]
  exact mul_lt_mul_of_pos_right hlt (zpow_pos (by norm_num) _)

theorem le_magnitude {d : Decimal} (hd : 0 < d.coefficient) : 10 ^ (d.size - 1) ≤ d.magnitude := by
  obtain ⟨k, hk⟩ : ∃ k, (digits d.coefficient).length = k + 1 :=
    Nat.exists_eq_add_one.2 (List.length_pos_iff.2 (digits_ne_nil _))
  have hle : (10 : ℚ) ^ k ≤ d.coefficient := by
    rcases Nat.eq_zero_or_pos k with rfl | hpos
    · exact_mod_cast hd
    · have := mt (length_digits_le_iff (n := d.coefficient) hpos).2 (by omega)
      exact_mod_cast Nat.le_of_not_lt this
  have hsize : d.size - 1 = k + d.exponent := by
    rw [size, hk]
    push_cast
    ring
  rw [magnitude, hsize, zpow_add₀ (by norm_num), zpow_natCast]
  exact mul_le_mul_of_nonneg_right hle (zpow_nonneg (by norm_num) _)

/-- No decimal in the interval of a double is so long or so short that its length decides. -/
theorem size_bounds {d : Decimal} {x : Binary64} (hx : 0 < x.significand)
    (h : x.Attracts d.magnitude) : d.size ≤ 310 ∧ -330 ≤ d.size := by
  have hd := coefficient_pos (h.pos hx)
  have hten : (1 : ℚ) < 10 := by norm_num
  constructor
  · have hlt : (10 : ℚ) ^ (d.size - 1) < 10 ^ (309 : Int) := by
      calc (10 : ℚ) ^ (d.size - 1) ≤ d.magnitude := le_magnitude hd
        _ < 2 ^ (x.exponent + 53) := h.lt_full
        _ ≤ 2 ^ (1024 : Int) := zpow_le_zpow_right₀ one_le_two (by have := x.exponent_le; omega)
        _ ≤ 10 ^ (309 : Int) := by
          exact_mod_cast (by decide +kernel : (2 : ℕ) ^ 1024 ≤ 10 ^ 309)
    have := (zpow_lt_zpow_iff_right₀ hten).1 hlt
    omega
  · have hlt : (10 : ℚ) ^ (-330 : Int) < 10 ^ d.size := by
      have hpow : (2 : ℚ) ^ (1076 : Int) ≤ 10 ^ (330 : Int) := by
        exact_mod_cast (by decide +kernel : (2 : ℕ) ^ 1076 ≤ 10 ^ 330)
      calc (10 : ℚ) ^ (-330 : Int) ≤ 1 * 2 ^ (-1076 : Int) := by
            rw [one_mul, zpow_neg, zpow_neg]
            exact inv_anti₀ (by positivity) hpow
        _ ≤ x.lower := by
          apply mul_le_mul
          · have := x.below_le
            exact_mod_cast (show 1 ≤ 4 * x.significand - x.below by omega)
          · exact zpow_le_zpow_right₀ one_le_two (by have := x.le_exponent; omega)
          · exact zpow_nonneg zero_le_two _
          · exact Nat.cast_nonneg _
        _ ≤ d.magnitude := h.lower_le
        _ < 10 ^ d.size := d.magnitude_lt
    exact ((zpow_lt_zpow_iff_right₀ hten).1 hlt).le

/-- A decimal in the interval of a double is read as that double. -/
theorem toBinary64?_of_attracts {d : Decimal} {x : Binary64} (hx : 0 < x.significand)
    (h : x.Attracts d.magnitude) : d.toBinary64? = some { x with negative := d.negative } := by
  have hd := coefficient_pos (h.pos hx)
  obtain ⟨hhigh, hlow⟩ := size_bounds hx h
  have hpow : ∀ k : ℕ, 0 < Nat.pow 10 k := fun k => Nat.pow_pos (by decide)
  have heq : d.toBinary64? = ofRatio? d.negative (d.coefficient * Nat.pow 10 d.exponent.toNat)
      (Nat.pow 10 (-d.exponent).toNat) := by
    unfold toBinary64?
    exact (if_neg hd.ne').trans ((if_neg (not_lt.2 hhigh)).trans (if_neg (not_lt.2 hlow)))
  rw [heq]
  exact ofRatio?_of_attracts d.negative hx (Nat.mul_pos hd (hpow _)) (hpow _)
    (d.magnitude_eq_ratio ▸ h)

end Decimal

end Transact.Number
