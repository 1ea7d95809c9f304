import Transact.Number.Scaling
import Transact.Proofs.Number.Rounding

/-!
# Scaling without overflow

`Binary64.scaled?` reads `n · 10^e` in two roundings. Each of them can add to the number, so a
decimal just below the bound of the finite doubles may be refused. Main statements:

* `Binary64.exists_ofRatio?`: a fraction below the bound is rounded, by half a unit at most.
* `Binary64.exists_scaled?`: a decimal that stays three places below the bound is not refused.
* `Binary64.scaled?_of_attracts`: a decimal with few digits and few places is rounded only once.
-/

set_option autoImplicit false

namespace Transact.Number.Binary64

/-- The magnitude. -/
def value (x : Binary64) : ℚ := x.significand * 2 ^ x.exponent

theorem value_nonneg (x : Binary64) : 0 ≤ x.value :=
  mul_nonneg (Nat.cast_nonneg _) (zpow_nonneg zero_le_two _)

theorem ratio_pos (x : Binary64) : 0 < x.ratio.2 := Nat.pow_pos (by decide)

theorem ratio_div (x : Binary64) : (x.ratio.1 : ℚ) / x.ratio.2 = x.value := by
  rw [value, zpow_eq_toNat two_ne_zero, ratio]
  simp only [Nat.pow_eq]
  push_cast
  rw [mul_div_assoc]

/-! ## Rounding -/

/-- Rounding adds at most a half. -/
theorem roundHalfEven_le {n d : Nat} (hd : 0 < d) : (roundHalfEven n d : ℚ) ≤ n / d + 1 / 2 := by
  have hsplit : d * (n / d) + n % d = n := Nat.div_add_mod n d
  have hle : 2 * (roundHalfEven n d * d) ≤ 2 * n + d := by
    unfold roundHalfEven
    simp only
    split
    · rw [Nat.mul_comm (n / d)]
      omega
    · rw [Nat.add_mul, Nat.mul_comm (n / d)]
      omega
  have hd' : (0 : ℚ) < d := by exact_mod_cast hd
  have hle' : (2 * (roundHalfEven n d * d) : ℚ) ≤ 2 * n + d := by exact_mod_cast hle
  rw [← sub_le_iff_le_add, le_div_iff₀ hd']
  linarith

theorem roundHalfEven_le_of_lt {n d m : Nat} (hd : 0 < d) (h : (n : ℚ) / d < m + 1 / 2) :
    roundHalfEven n d ≤ m := by
  have hlt : (roundHalfEven n d : ℚ) < m + 1 := by
    have := roundHalfEven_le (n := n) hd
    linarith
  exact Nat.lt_succ_iff.1 (by exact_mod_cast hlt)

theorem le_roundHalfEven {n d m : Nat} (hd : 0 < d) (h : (m : ℚ) ≤ n / d) :
    m ≤ roundHalfEven n d := by
  have hm : m ≤ n / d := by
    rw [le_div_iff₀ (by exact_mod_cast hd)] at h
    exact (Nat.le_div_iff_mul_le hd).2 (by exact_mod_cast h)
  refine hm.trans ?_
  unfold roundHalfEven
  simp only
  split <;> omega

/-! ## Finite results -/

/-- The half-way point between the greatest finite double and `2^1024`. -/
def overflow : ℚ := ((fullBound - 1 : ℕ) + 1 / 2) * 2 ^ (971 : Int)

theorem Fits.div_lt {q : ℚ} {e : Int} (h : Fits q e) : q / 2 ^ e < fullBound := by
  rw [div_lt_iff₀ (zpow_pos two_pos e)]
  refine h.lt_full.trans_le (le_of_eq ?_)
  rw [zpow_add₀ two_ne_zero, mul_comm]
  norm_num

theorem Fits.le_div {q : ℚ} {e : Int} (h : Fits q e) : e = -1074 ∨ (leastFull : ℚ) ≤ q / 2 ^ e := by
  refine h.full_le.imp_right fun hfull => ?_
  rw [le_div_iff₀ (zpow_pos two_pos e)]
  refine le_trans (le_of_eq ?_) hfull
  rw [zpow_add₀ two_ne_zero, mul_comm (2 ^ e)]
  norm_num

theorem Fits.exponent_le {q : ℚ} {e : Int} (h : Fits q e) (hq : q < overflow) : e ≤ 971 := by
  rcases h.full_le with rfl | hfull
  · decide
  · have hlt : (2 : ℚ) ^ (e + 52) < 2 ^ (1024 : Int) := by
      refine (hfull.trans_lt hq).trans ?_
      rw [overflow, show (1024 : Int) = 53 + 971 by norm_num, zpow_add₀ two_ne_zero]
      exact mul_lt_mul_of_pos_right (by norm_num) (zpow_pos two_pos _)
    have := (zpow_lt_zpow_iff_right₀ one_lt_two).1 hlt
    omega

/-- **A fraction below the bound is rounded** to a finite double, which exceeds it by half a unit at
most. -/
theorem exists_ofRatio? {n d : Nat} (negative : Bool) (hn : 0 < n) (hd : 0 < d)
    (h : (n : ℚ) / d < overflow) :
    ∃ (x : Binary64) (e : Int), ofRatio? negative n d = some x ∧ Fits (n / d) e ∧
      x.value ≤ n / d + 2 ^ e / 2 := by
  have hfits := fits_exponentFor hn hd
  generalize exponentFor n d = e at hfits
  have heq := ofRatio?_eq negative hn hd hfits
  have hle : e ≤ 971 := hfits.exponent_le h
  have hpos : (0 : ℚ) < 2 ^ e := zpow_pos two_pos e
  have hb := inUnits_pos (n := n) hd e
  have hunits := inUnits_div n d e
  generalize (inUnits n d e).1 = a at heq hunits
  generalize (inUnits n d e).2 = b at heq hunits hb
  have hvalue : (roundHalfEven a b : ℚ) * 2 ^ e ≤ n / d + 2 ^ e / 2 := by
    have := mul_le_mul_of_nonneg_right (roundHalfEven_le (n := a) hb) hpos.le
    rwa [hunits, add_mul, div_mul_cancel₀ _ hpos.ne', one_div_mul_eq_div] at this
  have hm : roundHalfEven a b ≤ fullBound :=
    roundHalfEven_le_of_lt hb (by rw [hunits]; linarith [hfits.div_lt])
  by_cases hcarry : roundHalfEven a b = fullBound
  · -- the significand goes on to the next power of two, which is there below the bound
    have he : e + 1 ≤ 971 := by
      by_contra hgt
      have hlast : e = 971 := by omega
      rw [overflow, ← hlast] at h
      have hless : roundHalfEven a b ≤ fullBound - 1 :=
        roundHalfEven_le_of_lt hb (by rwa [hunits, div_lt_iff₀ hpos])
      rw [hcarry] at hless
      exact absurd hless (by decide)
    have hleast : -1074 ≤ e + 1 := by
      have := hfits.least_le
      omega
    have hparts := ofParts?_parts negative
      ⟨negative, leastFull, e + 1, by decide, hleast, he, .inr (Nat.le_refl _)⟩
    refine ⟨_, e, heq.trans ((if_pos hcarry).trans hparts), hfits, ?_⟩
    rw [hcarry] at hvalue
    refine le_of_eq_of_le ?_ hvalue
    rw [value, zpow_add_one₀ two_ne_zero]
    norm_num
    ring
  · have hcanonical : e = -1074 ∨ leastFull ≤ roundHalfEven a b :=
      hfits.le_div.imp_right fun h => le_roundHalfEven hb (by rwa [hunits])
    have hparts := ofParts?_parts negative
      ⟨negative, roundHalfEven a b, e, by omega, hfits.least_le, hle, hcanonical⟩
    exact ⟨_, e, heq.trans ((if_neg hcarry).trans hparts), hfits, hvalue⟩

/-- From one on, the error of a rounded fraction is in proportion to it. -/
theorem exists_ofRatio?_of_one_le {n d : Nat} (negative : Bool) (hn : 0 < n) (hd : 0 < d)
    (hone : (1 : ℚ) ≤ n / d) (h : (n : ℚ) / d < overflow) :
    ∃ x : Binary64, ofRatio? negative n d = some x ∧ x.value ≤ n / d * (1 + 1 / 2 ^ 53) := by
  obtain ⟨x, e, hx, hfits, hvalue⟩ := exists_ofRatio? negative hn hd h
  refine ⟨x, hx, hvalue.trans ?_⟩
  have hunit : (2 : ℚ) ^ e * 2 ^ 52 ≤ n / d := by
    rcases hfits.full_le with rfl | hfull
    · refine le_trans ?_ hone
      rw [← zpow_natCast, ← zpow_add₀ two_ne_zero]
      exact zpow_le_one_of_nonpos₀ one_le_two (by decide)
    · rwa [zpow_add₀ two_ne_zero] at hfull
  rw [mul_add, mul_one, mul_one_div]
  have : (2 : ℚ) ^ e / 2 ≤ n / d / 2 ^ 53 := by
    rw [le_div_iff₀ (by norm_num)]
    linarith
  linarith

/-! ## Two roundings -/

/-- The half-way point above the third greatest of the doubles. -/
def scalable : ℚ := ((fullBound - 3 : ℕ) + 1 / 2) * 2 ^ (971 : Int)

/-- The intervals of all doubles but the greatest two stay below. -/
theorem upper_le_scalable {x : Binary64} (h : x.exponent < 971 ∨ x.significand ≤ fullBound - 3) :
    x.upper ≤ scalable := by
  rw [upper_eq, scalable]
  by_cases hm : x.significand ≤ fullBound - 3
  · have hm' : (x.significand : ℚ) ≤ (fullBound - 3 : ℕ) := by exact_mod_cast hm
    have hpow : (2 : ℚ) ^ x.exponent ≤ 2 ^ (971 : Int) :=
      zpow_le_zpow_right₀ one_le_two x.exponent_le
    exact mul_le_mul (add_le_add hm' le_rfl) hpow (zpow_nonneg zero_le_two _) (by positivity)
  · have hm' : (x.significand : ℚ) ≤ fullBound := by exact_mod_cast x.significand_lt.le
    have hpow : (2 : ℚ) ^ x.exponent ≤ 2 ^ (970 : Int) :=
      zpow_le_zpow_right₀ one_le_two (by have := h.resolve_right hm; omega)
    have htwice : (2 : ℚ) ^ (971 : Int) = 2 * 2 ^ (970 : Int) := zpow_one_add₀ two_ne_zero 970
    calc (x.significand + 1 / 2) * (2 : ℚ) ^ x.exponent
        ≤ (fullBound + 1 / 2) * 2 ^ (970 : Int) :=
          mul_le_mul (add_le_add hm' le_rfl) hpow (zpow_nonneg zero_le_two _) (by positivity)
      _ ≤ ((fullBound - 3 : ℕ) + 1 / 2) * 2 * 2 ^ (970 : Int) :=
          mul_le_mul_of_nonneg_right (by norm_num) (zpow_nonneg zero_le_two _)
      _ = ((fullBound - 3 : ℕ) + 1 / 2) * 2 ^ (971 : Int) := by rw [htwice, mul_assoc]

theorem scalable_lt_overflow : scalable < overflow :=
  mul_lt_mul_of_pos_right (by norm_num) (zpow_pos two_pos _)

theorem scalable_mul_lt_overflow : scalable * (1 + 1 / 2 ^ 53) * (1 + 1 / 2 ^ 53) < overflow := by
  calc scalable * (1 + 1 / 2 ^ 53) * (1 + 1 / 2 ^ 53)
      = ((fullBound - 3 : ℕ) + 1 / 2) * (1 + 1 / 2 ^ 53) * (1 + 1 / 2 ^ 53) * 2 ^ (971 : Int) := by
        rw [scalable]
        ring
    _ < overflow := mul_lt_mul_of_pos_right (by norm_num) (zpow_pos two_pos _)

/-- The double nearest to an integer exceeds it by little. -/
theorem value_ofRatio?_le {n : Nat} (hn : 0 < n) (h : (n : ℚ) < overflow) :
    ((ofRatio? false n 1).getD default).value ≤ n * (1 + 1 / 2 ^ 53) := by
  have hone : (1 : ℚ) ≤ n / (1 : ℕ) := by
    rw [Nat.cast_one, div_one]
    exact_mod_cast hn
  obtain ⟨x, hx, hvalue⟩ :=
    exists_ofRatio?_of_one_le false hn Nat.one_pos hone (by rwa [Nat.cast_one, div_one])
  rw [Nat.cast_one, div_one] at hvalue
  rwa [hx]

theorem ofInt_natCast (n : Nat) : ofInt n = (ofRatio? false n 1).getD default := by
  have hsign : decide ((n : Int) < 0) = false := by simp
  rw [ofInt, hsign, Int.natAbs_natCast]

theorem value_ofInt_le {n : Nat} (hn : 0 < n) (h : (n : ℚ) < overflow) :
    (ofInt n).value ≤ n * (1 + 1 / 2 ^ 53) :=
  ofInt_natCast n ▸ value_ofRatio?_le hn h

theorem value_tenPower_le {k : Nat} (h : (10 : ℚ) ^ k < overflow) :
    (tenPower k).value ≤ 10 ^ k * (1 + 1 / 2 ^ 53) := by
  have hcast : ((Nat.pow 10 k : ℕ) : ℚ) = 10 ^ k := by simp
  have := value_ofRatio?_le (n := Nat.pow 10 k) (Nat.pow_pos (by decide)) (by rwa [hcast])
  rwa [hcast] at this

theorem exists_mul? {x y : Binary64} (h : x.value * y.value < overflow) :
    ∃ z, x.mul? y = some z := by
  have hratio : ((x.ratio.1 * y.ratio.1 : ℕ) : ℚ) / (x.ratio.2 * y.ratio.2 : ℕ) =
      x.value * y.value := by
    rw [← ratio_div, ← ratio_div, div_mul_div_comm, Nat.cast_mul, Nat.cast_mul]
  rcases Nat.eq_zero_or_pos (x.ratio.1 * y.ratio.1) with hzero | hpos
  · exact ⟨_, if_pos hzero⟩
  · obtain ⟨z, -, hz, -⟩ := exists_ofRatio? false hpos (Nat.mul_pos x.ratio_pos y.ratio_pos)
      (hratio ▸ h)
    exact ⟨z, hz⟩

theorem scalable_lt_ten_pow : scalable < 10 ^ (309 : Int) := by
  calc scalable < 2 ^ (53 : Int) * 2 ^ (971 : Int) :=
        mul_lt_mul_of_pos_right (by norm_num) (zpow_pos two_pos _)
    _ = 2 ^ (1024 : Int) := by rw [← zpow_add₀ two_ne_zero]; rfl
    _ ≤ 10 ^ (309 : Int) := by
      exact_mod_cast (by decide +kernel : (2 : ℕ) ^ 1024 ≤ 10 ^ 309)

theorem one_le_of_not_isZero {n : Nat} (h : ¬(ofInt n).isZero = true) : (1 : ℚ) ≤ n := by
  rcases Nat.eq_zero_or_pos n with rfl | hn
  · exact absurd rfl h
  · exact_mod_cast hn

/-- **A decimal that stays below is not refused**: neither the digits nor the power of ten are
rounded up by so much that their product is beyond the finite doubles. -/
theorem exists_scaled? {n : Nat} {e : Int} (h : (n : ℚ) * 10 ^ e ≤ scalable) :
    ∃ x, scaled? n e = some x := by
  unfold scaled?
  simp only
  split_ifs with hzero hlarge hmul
  · exact ⟨_, rfl⟩
  · have hn : (1 : ℚ) ≤ n := one_le_of_not_isZero hzero
    have hpow : (10 : ℚ) ^ (309 : Int) ≤ 10 ^ e :=
      zpow_le_zpow_right₀ (by norm_num) (by simp only [maxTenPower] at hlarge; omega)
    have hle : (10 : ℚ) ^ e ≤ n * 10 ^ e := le_mul_of_one_le_left (zpow_nonneg (by norm_num) e) hn
    linarith [scalable_lt_ten_pow]
  · obtain ⟨k, rfl⟩ := Int.eq_ofNat_of_zero_le hmul
    rw [Int.toNat_natCast]
    rw [zpow_natCast] at h
    have hn : (1 : ℚ) ≤ n := one_le_of_not_isZero hzero
    have hpow : (1 : ℚ) ≤ 10 ^ k := one_le_pow₀ (by norm_num)
    have hx := value_ofInt_le (by exact_mod_cast hn)
      (((le_mul_of_one_le_right (by positivity) hpow).trans h).trans_lt scalable_lt_overflow)
    have hy := value_tenPower_le
      (((le_mul_of_one_le_left (by positivity) hn).trans h).trans_lt scalable_lt_overflow)
    apply exists_mul?
    calc (ofInt n).value * (tenPower k).value
        ≤ n * (1 + 1 / 2 ^ 53) * (10 ^ k * (1 + 1 / 2 ^ 53)) :=
          mul_le_mul hx hy (value_nonneg _) (by positivity)
      _ = n * 10 ^ k * (1 + 1 / 2 ^ 53) * (1 + 1 / 2 ^ 53) := by ring
      _ ≤ scalable * (1 + 1 / 2 ^ 53) * (1 + 1 / 2 ^ 53) := by gcongr
      _ < overflow := scalable_mul_lt_overflow
  · exact ⟨_, rfl⟩

/-! ## One rounding -/

theorem attracts_value {x : Binary64} (hx : 0 < x.significand) : x.Attracts x.value := by
  have hpos : (0 : ℚ) < 2 ^ x.exponent := zpow_pos two_pos _
  have hbelow : (0 : ℚ) < x.below := by
    unfold below
    split <;> norm_num
  refine ⟨.inl ?_, .inl ?_⟩
  · rw [lower_eq hx, value]
    exact mul_lt_mul_of_pos_right (by linarith) hpos
  · rw [upper_eq, value]
    exact mul_lt_mul_of_pos_right (by linarith) hpos

/-- An integer of at most 53 bits is a double: it is shifted until it has all of them. -/
theorem exists_value_eq {n : Nat} (hn : 0 < n) (h : n < fullBound) :
    ∃ x : Binary64, 0 < x.significand ∧ x.value = n := by
  have hlog : n.log2 < 53 := (Nat.log2_lt hn.ne').2 h
  obtain ⟨j, hj⟩ : ∃ j, n.log2 + j = 52 := ⟨52 - n.log2, by omega⟩
  have hlt : n * 2 ^ j < fullBound := by
    calc n * 2 ^ j < 2 ^ (n.log2 + 1) * 2 ^ j :=
          Nat.mul_lt_mul_of_pos_right Nat.lt_log2_self (Nat.pow_pos (by decide))
      _ = 2 ^ 53 := by rw [← Nat.pow_add, show n.log2 + 1 + j = 53 by omega]
  have hfull : leastFull ≤ n * 2 ^ j := by
    calc leastFull = 2 ^ n.log2 * 2 ^ j := by rw [← Nat.pow_add, hj]
      _ ≤ n * 2 ^ j := Nat.mul_le_mul_right _ (Nat.log2_self_le hn.ne')
  refine ⟨⟨false, n * 2 ^ j, -j, hlt, by omega, by omega, .inr hfull⟩,
    Nat.mul_pos hn (Nat.pow_pos (by decide)), ?_⟩
  rw [value, Nat.cast_mul, Nat.cast_pow, zpow_neg, zpow_natCast]
  exact mul_inv_cancel_right₀ (by positivity) _

theorem value_ofRatio? {n : Nat} (h : n < fullBound) :
    ((ofRatio? false n 1).getD default).value = n := by
  rcases Nat.eq_zero_or_pos n with rfl | hn
  · exact zero_mul _
  · obtain ⟨x, hx, hvalue⟩ := exists_value_eq hn h
    have hattracts : x.Attracts (n / (1 : ℕ)) := by
      rw [Nat.cast_one, div_one, ← hvalue]
      exact attracts_value hx
    rw [ofRatio?_of_attracts false hx hn Nat.one_pos hattracts]
    exact hvalue

/-- A quotient in the interval of a double is rounded to it. -/
theorem div_of_attracts {x y z : Binary64} (hz : 0 < z.significand)
    (h : z.Attracts (x.value / y.value)) : x.div y = { z with negative := false } := by
  have hratio : ((x.ratio.1 * y.ratio.2 : ℕ) : ℚ) / (x.ratio.2 * y.ratio.1 : ℕ) =
      x.value / y.value := by
    rw [← ratio_div, ← ratio_div, div_div_div_eq, Nat.cast_mul, Nat.cast_mul]
  rw [← hratio] at h
  have hpos := h.pos hz
  have hn : 0 < x.ratio.1 * y.ratio.2 := by
    by_contra hzero
    rw [Nat.eq_zero_of_not_pos hzero, Nat.cast_zero, zero_div] at hpos
    exact absurd hpos (lt_irrefl _)
  have hd : 0 < x.ratio.2 * y.ratio.1 := by
    by_contra hzero
    rw [Nat.eq_zero_of_not_pos hzero, Nat.cast_zero, div_zero] at hpos
    exact absurd hpos (lt_irrefl _)
  rw [div, ofRatio?_of_attracts false hz hn hd h]
  rfl

/-- **A short decimal is rounded once**: neither its digits nor the power of ten need rounding. -/
theorem scaled?_of_attracts {n j : Nat} {x : Binary64} (hx : 0 < x.significand)
    (hn : n < fullBound) (hpos : 0 < j) (hj : j ≤ 15) (h : x.Attracts (n * 10 ^ (-j : Int))) :
    scaled? n (-j) = some { x with negative := false } := by
  have hdigits : (ofInt n).value = n := ofInt_natCast n ▸ value_ofRatio? hn
  have hpower : (tenPower j).value = 10 ^ j := by
    have hlt : Nat.pow 10 j < fullBound :=
      (Nat.pow_le_pow_right (by decide) hj).trans_lt (by decide)
    rw [tenPower, value_ofRatio? hlt, Nat.pow_eq, Nat.cast_pow]
    norm_num
  have hquotient : (ofInt n).value / (tenPower j).value = n * 10 ^ (-j : Int) := by
    rw [hdigits, hpower, zpow_neg, zpow_natCast, div_eq_mul_inv]
  have hne : ¬(ofInt n).isZero = true := by
    intro hzero
    have hsignificand : (ofInt n).significand = 0 := by simpa [isZero] using hzero
    have := h.pos hx
    rw [← hquotient, value, hsignificand, Nat.cast_zero, zero_mul, zero_div] at this
    exact absurd this (lt_irrefl _)
  have hsteps : (j - 1) / maxTenPower = 0 := Nat.div_eq_of_lt (by rw [maxTenPower]; omega)
  unfold scaled?
  simp only
  rw [if_neg hne, if_neg (by simp only [maxTenPower]; omega), if_neg (by omega), neg_neg,
    Int.toNat_natCast, hsteps, Nat.mul_zero, Nat.sub_zero, lowered]
  exact congrArg some (div_of_attracts hx (hquotient ▸ h))

end Transact.Number.Binary64
