import Transact.Number.Shortest
import Transact.Proofs.Number.Rounding

/-!
# Shortest decimals read back

The decimal that `Binary64.shortest` finds lies in the interval of its double. Main statements:

* `Binary64.attracts_of_onGrid?`: what a grid gives lies in the interval.
* `Binary64.onGrid?_isSome`: a grid as fine as a quarter of the last place gives something.
* `Binary64.onGrid?_shortest`, `Binary64.attracts_shortest`: the search reaches such a grid.
* `DecimalStyle.exists_numeral`: the text of a double is a numeral with the value of that decimal.
-/

set_option autoImplicit false

namespace Transact.Number

open Transact.Text

namespace Binary64

/-! ## One grid -/

theorem factors_pos (k e : Int) : 0 < (factors k e).1 ∧ 0 < (factors k e).2 :=
  ⟨Nat.mul_pos (Nat.pow_pos (by decide)) (Nat.pow_pos (by decide)),
    Nat.mul_pos (Nat.pow_pos (by decide)) (Nat.pow_pos (by decide))⟩

/-- Both factors are the powers they stand for, times the same positive number. -/
theorem factors_eq (k e : Int) :
    ∃ s : ℚ, 0 < s ∧ ((factors k e).1 : ℚ) = 10 ^ k * s ∧ ((factors k e).2 : ℚ) = 2 ^ e * s := by
  refine ⟨2 ^ (-e).toNat * 10 ^ (-k).toNat, by positivity, ?_, ?_⟩
  · rw [zpow_eq_toNat (by norm_num) k, factors]
    simp only [Nat.pow_eq]
    push_cast
    field_simp
  · rw [zpow_eq_toNat two_ne_zero e, factors]
    simp only [Nat.pow_eq]
    push_cast
    field_simp

/-- A grid gives one of the two neighbours of `x`, when it is within the half-way points. -/
theorem onGrid?_cases {tie : Tie} {x : Binary64} {k : Int} {c p u : Nat}
    (hf : factors k (x.exponent - 2) = (p, u)) (h : onGrid? tie x k = some c) :
    (c = 4 * x.significand * u / p ∧ ((4 * x.significand - x.below) * u < c * p ∨
      (x.significand % 2 = 0 ∧ (4 * x.significand - x.below) * u = c * p))) ∨
    (c = 4 * x.significand * u / p + 1 ∧ (c * p < (4 * x.significand + 2) * u ∨
      (x.significand % 2 = 0 ∧ c * p = (4 * x.significand + 2) * u))) := by
  unfold onGrid? at h
  simp only [hf] at h
  split at h
  · cases h
  · rename_i hlow _
    cases h
    exact .inl ⟨rfl, by simpa [below] using hlow⟩
  · rename_i _ hhigh
    cases h
    exact .inr ⟨rfl, by simpa using hhigh⟩
  · rename_i hlow hhigh
    have hc : c = 4 * x.significand * u / p ∨ c = 4 * x.significand * u / p + 1 := by
      cases tie with
      | up =>
        simp only at h
        split_ifs at h
        · exact .inl (Option.some.inj h).symm
        · exact .inr (Option.some.inj h).symm
        · exact .inr (Option.some.inj h).symm
      | toEven =>
        split_ifs at h
        · exact .inl (Option.some.inj h).symm
        · exact .inr (Option.some.inj h).symm
        · exact .inl (Option.some.inj h).symm
        · exact .inr (Option.some.inj h).symm
    rcases hc with rfl | rfl
    · exact .inl ⟨rfl, by simpa [below] using hlow⟩
    · exact .inr ⟨rfl, by simpa using hhigh⟩

/-- What a grid gives is in the interval of the double. -/
theorem attracts_of_onGrid? {tie : Tie} {x : Binary64} {k : Int} {c : Nat}
    (h : onGrid? tie x k = some c) : x.Attracts (c * 10 ^ k) := by
  obtain ⟨p, u, hf⟩ : ∃ p u, factors k (x.exponent - 2) = (p, u) := ⟨_, _, rfl⟩
  obtain ⟨hp, hu⟩ := factors_pos k (x.exponent - 2)
  obtain ⟨s, hs, hps, hus⟩ := factors_eq k (x.exponent - 2)
  rw [hf] at hp hu hps hus
  have hbelow := x.below_le
  have hfloor : 4 * x.significand * u / p * p ≤ 4 * x.significand * u := Nat.div_mul_le_self _ _
  have hceil : 4 * x.significand * u < (4 * x.significand * u / p + 1) * p :=
    Nat.lt_mul_of_div_lt (Nat.lt_succ_self _) hp
  have hless : (4 * x.significand - x.below) * u ≤ 4 * x.significand * u :=
    Nat.mul_le_mul_right u (Nat.sub_le _ _)
  have hmore : 4 * x.significand * u < (4 * x.significand + 2) * u :=
    Nat.mul_lt_mul_of_pos_right (by omega) hu
  -- both comparisons are made after multiplication by the same number
  have hleft : (((4 * x.significand - x.below) * u : ℕ) : ℚ) = x.lower * s := by
    rw [Nat.cast_mul, hus, lower, mul_assoc]
  have hmid : ((c * p : ℕ) : ℚ) = c * 10 ^ k * s := by
    rw [Nat.cast_mul, hps, mul_assoc]
  have hright : (((4 * x.significand + 2) * u : ℕ) : ℚ) = x.upper * s := by
    rw [Nat.cast_mul, hus, upper, mul_assoc]
  have habove : (4 * x.significand - x.below) * u < c * p ∨
      (x.significand % 2 = 0 ∧ (4 * x.significand - x.below) * u = c * p) := by
    rcases onGrid?_cases hf h with ⟨rfl, hc⟩ | ⟨rfl, hc⟩
    · exact hc
    · exact .inl (by omega)
  have hunder : c * p < (4 * x.significand + 2) * u ∨
      (x.significand % 2 = 0 ∧ c * p = (4 * x.significand + 2) * u) := by
    rcases onGrid?_cases hf h with ⟨rfl, hc⟩ | ⟨rfl, hc⟩
    · exact .inl (by omega)
    · exact hc
  constructor
  · rcases habove with hlt | ⟨heven, heq⟩
    · refine .inl (lt_of_mul_lt_mul_right ?_ hs.le)
      rw [← hleft, ← hmid]
      exact_mod_cast hlt
    · refine .inr ⟨heven, mul_right_cancel₀ hs.ne' ?_⟩
      rw [← hleft, ← hmid, heq]
  · rcases hunder with hlt | ⟨heven, heq⟩
    · refine .inl (lt_of_mul_lt_mul_right ?_ hs.le)
      rw [← hmid, ← hright]
      exact_mod_cast hlt
    · refine .inr ⟨heven, mul_right_cancel₀ hs.ne' ?_⟩
      rw [← hmid, ← hright, heq]

/-- A grid as fine as a quarter of the last place has a decimal for `x`: its multiple above `x` is
less than two quarters away. -/
theorem onGrid?_isSome {tie : Tie} {x : Binary64} {k : Int}
    (hk : (factors k (x.exponent - 2)).1 ≤ (factors k (x.exponent - 2)).2) :
    (onGrid? tie x k).isSome = true := by
  obtain ⟨p, u, hf⟩ : ∃ p u, factors k (x.exponent - 2) = (p, u) := ⟨_, _, rfl⟩
  obtain ⟨hp, hu⟩ := factors_pos k (x.exponent - 2)
  rw [hf] at hk hp hu
  have hfloor : 4 * x.significand * u / p * p ≤ 4 * x.significand * u := Nat.div_mul_le_self _ _
  have hhigh : (4 * x.significand * u / p + 1) * p < (4 * x.significand + 2) * u := by
    rw [Nat.add_mul, Nat.add_mul]
    simp only at hk hu
    omega
  unfold onGrid?
  simp only [hf, hhigh, decide_true, Bool.true_or]
  split
  · rename_i hfalse
    cases hfalse
  · rename_i hfalse
    cases hfalse
  · rfl
  · cases tie <;> split_ifs <;> rfl

/-! ## The search -/

/-- A power of ten is at most a power of two when the exponents are in proportion: `10^3 ≤ 2^10`
decides above one, `2^33 ≤ 10^10` below. -/
theorem ten_zpow_le_two_zpow {k e : Int} (hpos : 0 ≤ k → 10 * k ≤ 3 * e)
    (hneg : k ≤ 0 → 33 * k ≤ 10 * e) : (10 : ℚ) ^ k ≤ 2 ^ e := by
  have hten : (0 : ℚ) ≤ 10 ^ k := zpow_nonneg (by norm_num) _
  have htwo : (0 : ℚ) ≤ 2 ^ e := zpow_nonneg (by norm_num) _
  rcases le_total 0 k with hk | hk
  · apply (pow_le_pow_iff_left₀ hten htwo (by decide : 3 ≠ 0)).1
    calc ((10 : ℚ) ^ k) ^ 3 = (10 ^ (3 : ℕ)) ^ k := by
          rw [← zpow_natCast (10 ^ k), ← zpow_mul, mul_comm, zpow_mul, zpow_natCast]
      _ ≤ (2 ^ (10 : Int)) ^ k := zpow_le_zpow_left₀ hk (by norm_num) (by norm_num)
      _ = 2 ^ (10 * k) := (zpow_mul _ _ _).symm
      _ ≤ 2 ^ (e * 3) := zpow_le_zpow_right₀ one_le_two (by have := hpos hk; omega)
      _ = (2 ^ e) ^ 3 := by rw [zpow_mul]; rfl
  · apply (pow_le_pow_iff_left₀ hten htwo (by decide : 10 ≠ 0)).1
    calc ((10 : ℚ) ^ k) ^ 10 = (10 ^ (10 : ℕ)) ^ k := by
          rw [← zpow_natCast (10 ^ k), ← zpow_mul, mul_comm, zpow_mul, zpow_natCast]
      _ ≤ (2 ^ (33 : Int)) ^ k := by
          have h := zpow_le_zpow_left₀ (show 0 ≤ -k by omega) (by norm_num)
            (by norm_num : (2 : ℚ) ^ (33 : Int) ≤ 10 ^ (10 : ℕ))
          rw [zpow_neg, zpow_neg] at h
          exact (inv_le_inv₀ (zpow_pos (by norm_num) _) (zpow_pos (by norm_num) _)).1 h
      _ = 2 ^ (33 * k) := (zpow_mul _ _ _).symm
      _ ≤ 2 ^ (e * 10) := zpow_le_zpow_right₀ one_le_two (by have := hneg hk; omega)
      _ = (2 ^ e) ^ 10 := by rw [zpow_mul]; rfl

theorem factors_le {k e : Int} (h : (10 : ℚ) ^ k ≤ 2 ^ e) : (factors k e).1 ≤ (factors k e).2 := by
  obtain ⟨s, hs, hten, htwo⟩ := factors_eq k e
  have : ((factors k e).1 : ℚ) ≤ (factors k e).2 := by
    rw [hten, htwo]
    exact mul_le_mul_of_nonneg_right h hs.le
  exact_mod_cast this

/-- The search ends at a grid with a decimal when there is one among those it may try. -/
theorem onGrid?_search {tie : Tie} {x : Binary64} :
    ∀ {steps : Nat} {k : Int} (j : Nat), j < steps → (onGrid? tie x (k - j)).isSome = true →
      onGrid? tie x (search tie x steps k).2 = some (search tie x steps k).1
  | 0, _, _, hj, _ => absurd hj (Nat.not_lt_zero _)
  | steps + 1, k, j, hj, hsome => by
    unfold search
    cases hk : onGrid? tie x k with
    | some c => exact hk
    | none =>
      cases j with
      | zero =>
        rw [Nat.cast_zero, sub_zero, hk] at hsome
        cases hsome
      | succ j =>
        apply onGrid?_search j (by omega)
        rwa [Nat.cast_succ, sub_add_eq_sub_sub_swap] at hsome

/-- The last of the grids that are tried is fine enough for every double. -/
theorem onGrid?_shortest {tie : Tie} {x : Binary64} :
    onGrid? tie x (shortest tie x).2 = some (shortest tie x).1 := by
  have hlog : (x.significand.log2 : Int) ≤ 52 := by
    have hlt := x.significand_lt
    rcases Nat.eq_zero_or_pos x.significand with h | h
    · rw [h]
      decide
    · have := (Nat.log2_lt h.ne' (k := 53)).2 hlt
      omega
  have hle := x.le_exponent
  have hge := x.exponent_le
  apply onGrid?_search 23 (by decide)
  apply onGrid?_isSome
  apply factors_le
  apply ten_zpow_le_two_zpow
  · intro _
    push_cast
    omega
  · intro _
    push_cast
    omega

/-- The shortest decimal of a double is in its interval. -/
theorem attracts_shortest (tie : Tie) (x : Binary64) :
    x.Attracts ((shortest tie x).1 * 10 ^ (shortest tie x).2) :=
  attracts_of_onGrid? onGrid?_shortest

theorem shortest_pos (tie : Tie) {x : Binary64} (hx : 0 < x.significand) :
    0 < (shortest tie x).1 := by
  have hpos := (attracts_shortest tie x).pos hx
  rcases Nat.eq_zero_or_pos (shortest tie x).1 with h | h
  · rw [h, Nat.cast_zero, zero_mul] at hpos
    exact absurd hpos (lt_irrefl _)
  · exact h

end Binary64

/-! ## Layout -/

/-- The parts of the text of a number: its digits before and after the point, and its exponent. -/
structure Numeral where
  whole : List Char
  fraction : Option (List Char)
  exponent : Option Int

namespace Numeral

/-- The text of an exponent. -/
def exponentText (e : Int) : List Char :=
  ['e', if e < 0 then '-' else '+'] ++ digits e.natAbs

/-- The text of a numeral, without a sign. -/
def text (n : Numeral) : List Char :=
  n.whole ++ n.fraction.elim [] ('.' :: ·) ++ n.exponent.elim [] exponentText

/-- The decimal that a numeral denotes. -/
def decimal (negative : Bool) (n : Numeral) : Decimal :=
  ⟨negative, digitsValue (n.whole ++ n.fraction.getD []),
    n.exponent.getD 0 - (n.fraction.getD []).length⟩

/-- Digits stand on both sides of the point, and no zero in front of others. -/
structure Valid (n : Numeral) : Prop where
  whole_digits : ∀ c ∈ n.whole, isDigit c = true
  whole_ne_nil : n.whole ≠ []
  head_ne : 1 < n.whole.length → n.whole.head? ≠ some '0'
  fraction_digits : ∀ ds, n.fraction = some ds → ds ≠ [] ∧ ∀ c ∈ ds, isDigit c = true

/-- The numeral is that of a text with a point or an exponent, and at most 16 digits before them.
Its value is `q`. -/
structure Spells (n : Numeral) (text : List Char) (q : ℚ) : Prop where
  valid : n.Valid
  isDecimal : n.fraction.isSome = true ∨ n.exponent.isSome = true
  length_le : n.whole.length ≤ 16
  text_eq : text = n.text
  magnitude_eq : ∀ negative, (n.decimal negative).magnitude = q

end Numeral

namespace DecimalStyle

theorem isDigit_of_mem_zeros {k : Nat} {c : Char} (h : c ∈ zeros k) : isDigit c = true := by
  rw [List.eq_of_mem_replicate h]
  rfl

/-- Digits on both sides of a point are the text of a numeral, whose value they give. -/
theorem exists_pointed (whole fraction : List Char) {q : ℚ}
    (hwhole : ∀ d ∈ whole, isDigit d = true) (hfraction : ∀ d ∈ fraction, isDigit d = true)
    (hne : whole ≠ []) (hne' : fraction ≠ []) (hlen : whole.length ≤ 16)
    (hhead : 1 < whole.length → whole.head? ≠ some '0')
    (hvalue : digitsValue (whole ++ fraction) * 10 ^ (-(fraction.length : Int)) = q) :
    ∃ n : Numeral, n.Spells (whole ++ '.' :: fraction) q := by
  refine ⟨⟨whole, some fraction, none⟩, ⟨hwhole, hne, hhead, ?_⟩, .inl rfl, hlen, ?_,
    fun negative => ?_⟩
  · rintro ds ⟨⟩
    exact ⟨hne', hfraction⟩
  · simp [Numeral.text]
  · simpa [Decimal.magnitude, Numeral.decimal] using hvalue

/-- Digits laid out around a point denote the same number. -/
theorem exists_positional {style : DecimalStyle} (hs : style.point = true) {c : Nat} (hc : 0 < c)
    {k : Int} (hlead : (digits c).length + k ≤ 16) :
    ∃ n : Numeral, n.Spells (style.positionalText (digits c) k) (c * 10 ^ k) := by
  have hlen : 0 < (digits c).length := List.length_pos_iff.2 (digits_ne_nil c)
  have hhead := head_digits_ne hc
  have hdigits : ∀ d ∈ digits c, isDigit d = true := fun d hd => isDigit_of_mem_digits hd
  unfold positionalText
  simp only
  split_ifs with hk hw
  · -- zeros up to the point and one behind it
    obtain ⟨j, rfl⟩ := Int.eq_ofNat_of_zero_le hk
    rw [Int.toNat_natCast]
    have hzero : digitsValue ['0'] = 0 := rfl
    apply exists_pointed (digits c ++ zeros j) ['0']
    · intro d hd
      rcases List.mem_append.1 hd with hd | hd
      · exact hdigits d hd
      · exact isDigit_of_mem_zeros hd
    · simp [isDigit]
    · simp [digits_ne_nil]
    · simp
    · simp only [zeros, List.length_append, List.length_replicate]
      omega
    · intro _
      rwa [List.head?_append_of_ne_nil _ (digits_ne_nil c)]
    · simp only [digitsValue_append, zeros, digitsValue_zeros, digitsValue_digits,
        List.length_replicate, hzero, List.length_singleton]
      push_cast
      rw [zpow_natCast, zpow_neg_one]
      ring
  · -- the point among the digits
    obtain ⟨w, hw'⟩ : ∃ w : Nat, ((digits c).length : Int) + k = w :=
      Int.eq_ofNat_of_zero_le hw.le
    rw [hw', Int.toNat_natCast, List.append_assoc]
    apply exists_pointed ((digits c).take w) ((digits c).drop w)
    · exact fun d hd => hdigits d (List.mem_of_mem_take hd)
    · exact fun d hd => hdigits d (List.mem_of_mem_drop hd)
    · intro h
      rcases List.take_eq_nil_iff.1 h with h | h
      · omega
      · exact digits_ne_nil c h
    · intro h
      have := List.drop_eq_nil_iff.1 h
      omega
    · rw [List.length_take]
      omega
    · intro _
      rwa [List.head?_take, if_neg (by omega)]
    · rw [List.take_append_drop, digitsValue_digits, List.length_drop]
      congr 2
      omega
  · -- zeros between the point and the digits
    apply exists_pointed ['0'] (zeros (-((digits c).length + k)).toNat ++ digits c)
    · simp [isDigit]
    · intro d hd
      rcases List.mem_append.1 hd with hd | hd
      · exact isDigit_of_mem_zeros hd
      · exact hdigits d hd
    · simp
    · simp [digits_ne_nil]
    · simp
    · simp
    · simp only [digitsValue_append, zeros, digitsValue_zeros, digitsValue_digits,
        List.length_append, List.length_replicate]
      congr 2
      · simp [digitsValue, digitValue]
      · omega

/-- Digits laid out with an exponent denote the same number. -/
theorem exists_scientific (c : Nat) (k : Int) :
    ∃ n : Numeral,
      n.Spells (scientificText (digits c) ((digits c).length + k - 1)) (c * 10 ^ k) := by
  have hdigits : ∀ d ∈ digits c, isDigit d = true := fun d hd => isDigit_of_mem_digits hd
  have hvalue := digitsValue_digits c
  cases hds : digits c with
  | nil => exact absurd hds (digits_ne_nil c)
  | cons d ds =>
    rw [hds] at hdigits hvalue
    by_cases hone : ds = []
    · subst hone
      refine ⟨⟨[d], none, some k⟩, ⟨?_, ?_, ?_, ?_⟩, .inr rfl, by simp, ?_, ?_⟩
      · exact hdigits
      · simp
      · simp
      · rintro ds ⟨⟩
      · simp [scientificText, Numeral.text, Numeral.exponentText]
      · intro negative
        simp [Decimal.magnitude, Numeral.decimal, hvalue]
    · refine ⟨⟨[d], some ds, some (((d :: ds).length : Int) + k - 1)⟩, ⟨?_, ?_, ?_, ?_⟩, .inr rfl,
        by simp, ?_, ?_⟩
      · exact fun e he => hdigits e (List.mem_cons.2 (.inl (List.mem_singleton.1 he)))
      · simp
      · simp
      · rintro _ ⟨⟩
        exact ⟨hone, fun e he => hdigits e (List.mem_cons_of_mem _ he)⟩
      · have hpos := List.length_pos_iff.2 hone
        simp [scientificText, Numeral.text, Numeral.exponentText, show ds.length ≠ 0 by omega]
      · intro negative
        simp only [Decimal.magnitude, Numeral.decimal, Option.getD, List.singleton_append, hvalue,
          List.length_cons]
        congr 2
        omega

/-- The text of a double is a numeral after its sign. The double nearest to its value is the one
that was written. -/
theorem exists_numeral {style : DecimalStyle} (hs : style.point = true)
    (hlead : ∀ lead, style.positional lead = true → lead < 16) (x : Binary64) :
    ∃ (n : Numeral) (body : List Char) (q : ℚ),
      (style.render x).toList = (if x.negative then ['-'] else []) ++ body ∧ n.Spells body q ∧
        x.Attracts q ∧ (n.decimal x.negative).toBinary64? = some x := by
  have hsign : ∀ body : List Char,
      (String.ofList (if x.negative then '-' :: body else body)).toList =
        (if x.negative then ['-'] else []) ++ body := by
    intro body
    rw [String.toList_ofList]
    split <;> rfl
  unfold render
  simp only [hsign]
  rcases Nat.eq_zero_or_pos x.significand with hx | hx
  · have hexp : x.exponent = -1074 := x.canonical.resolve_right (by rw [hx]; decide)
    have hzero : Binary64.zero x.negative = x := by
      cases x
      simp only at hx hexp
      subst hx hexp
      rfl
    have hvalid : Numeral.Valid ⟨['0'], some ['0'], none⟩ :=
      ⟨by simp [isDigit], by simp, by simp, by rintro ds ⟨⟩; simp [isDigit]⟩
    refine ⟨⟨['0'], some ['0'], none⟩, ['0', '.', '0'], 0, ?_,
      ⟨hvalid, .inl rfl, by simp, rfl, fun negative => ?_⟩, ⟨.inr ⟨?_, ?_⟩, .inl ?_⟩, ?_⟩
    · simp [Binary64.isZero, hx, hs]
    · simp [Decimal.magnitude, Numeral.decimal, digitsValue, digitValue]
    · rw [hx]
    · simp [Binary64.lower, hx]
    · exact mul_pos (by positivity) (zpow_pos two_pos _)
    · rw [← hzero]
      rfl
  · have hne : x.isZero = false := by simpa [Binary64.isZero] using hx.ne'
    have hc := Binary64.shortest_pos style.tie hx
    have hattracts := Binary64.attracts_shortest style.tie x
    rw [hne]
    simp only [Bool.false_eq_true, if_false]
    generalize x.shortest style.tie = d at hc hattracts
    obtain ⟨n, hn⟩ : ∃ n : Numeral, n.Spells
        (if style.positional ((digits d.1).length + d.2 - 1) then
          style.positionalText (digits d.1) d.2
        else scientificText (digits d.1) ((digits d.1).length + d.2 - 1)) (d.1 * 10 ^ d.2) := by
      split_ifs with hpositional
      · have := hlead _ hpositional
        exact exists_positional hs hc (by omega)
      · exact exists_scientific d.1 d.2
    exact ⟨n, _, _, rfl, hn, hattracts,
      Decimal.toBinary64?_of_attracts hx (hn.magnitude_eq _ ▸ hattracts)⟩

end DecimalStyle

end Transact.Number
