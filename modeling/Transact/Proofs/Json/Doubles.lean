import Transact.Proofs.Json.Reading
import Transact.Proofs.Number.Scaling

/-!
# Doubles in JSON texts

A double is written as the shortest decimal that is nearest to it, but a decimal is read in two
roundings. So what is read from the text of a double is a double, but it may be another one:
`Binary64.reread`. Main statements:

* `Json.exists_denotes_render`: the text of a double denotes a double.
* `Json.reread_eq_self`: it denotes the same double when it is short.
* `Json.mapFloats_eq_self_iff`: a value stays when each of its doubles does.
-/

set_option autoImplicit false

namespace Transact

open Text Number

namespace Json

/-! ## Written doubles are read -/

theorem accumulate_of_length_le {cs : List Char} (hcs : ∀ c ∈ cs, isDigit c = true)
    (hlen : cs.length ≤ 16) : accumulate 0 cs = (digitsValue cs, []) := by
  have hlt := digitsValue_lt hcs
  have hpow : 10 ^ cs.length ≤ 10 ^ 16 := Nat.pow_le_pow_right (by decide) hlen
  simpa using accumulate_of_le 0 cs (by omega)

/-- A numeral that stays below what two roundings may carry beyond the doubles is read as a
double. -/
theorem exists_numeralValue {n : Numeral} {body : List Char} {q : ℚ} (hn : n.Spells body q)
    (hq : q ≤ Binary64.scalable) (negative : Bool) : ∃ y, numeralValue negative n = .float y := by
  obtain ⟨whole, fraction, exponent⟩ := n
  have hwhole : accumulate 0 whole = (digitsValue whole, []) :=
    accumulate_of_length_le hn.valid.whole_digits hn.length_le
  have hvalue : numeralValue negative ⟨whole, fraction, exponent⟩ =
      decimalValue negative whole (fraction.getD []) (exponent.getD 0) := by
    unfold numeralValue
    split
    · rename_i hf he
      rcases hn.isDecimal with h | h
      · exact absurd h (by simp_all)
      · exact absurd h (by simp_all)
    · rfl
  have hmagnitude := hn.magnitude_eq negative
  simp only [Decimal.magnitude, Numeral.decimal, digitsValue_append] at hmagnitude
  have htaken := accumulate_le (digitsValue whole) (fraction.getD [])
  generalize fraction.getD [] = ds at hvalue hmagnitude htaken
  generalize exponent.getD 0 = e at hvalue hmagnitude
  rw [hvalue, decimalValue, hwhole]
  simp only [List.length_nil, Nat.cast_zero, add_zero]
  generalize accumulate (digitsValue whole) ds = taken at htaken
  have hle : (taken.1 : ℚ) * 10 ^ (e + taken.2.length - ds.length : Int) ≤ Binary64.scalable := by
    refine le_trans ?_ hq
    rw [← hmagnitude, show e + taken.2.length - (ds.length : Int) =
      taken.2.length + (e - ds.length) by ring, zpow_add₀ (by norm_num), zpow_natCast, ← mul_assoc]
    refine mul_le_mul_of_nonneg_right ?_ (zpow_nonneg (by norm_num) _)
    exact_mod_cast htaken
  obtain ⟨y, hy⟩ := Binary64.exists_scaled? hle
  exact ⟨_, by rw [floatValue, hy]⟩

/-- The text is that of a number with the value of a double. -/
def isFloatText (text : List Char) : Bool :=
  match number? text with
  | some (.float _, []) => true
  | _ => false

theorem exists_denotes_of_isFloatText {text : List Char} (h : isFloatText text = true) :
    ∃ y, Denotes text (.float y) := by
  unfold isFloatText at h
  split at h
  · rename_i y hread
    obtain ⟨front, htext, hfront⟩ := denotes_of_number? hread
    rw [List.append_nil] at htext
    exact ⟨y, htext ▸ hfront⟩
  · cases h

/-- The greatest two doubles are read as doubles, close to the bound as they are. -/
theorem isFloatText_greatest : ∀ negative : Bool,
    isFloatText (floatStyle.render ⟨negative, fullBound - 1, 971, by decide, by decide, by decide,
        .inr (by decide)⟩).toList = true ∧
      isFloatText (floatStyle.render ⟨negative, fullBound - 2, 971, by decide, by decide,
        by decide, .inr (by decide)⟩).toList = true := by
  decide +kernel

theorem exists_spells_render (x : Binary64) :
    ∃ (n : Numeral) (body : List Char) (q : ℚ),
      (floatStyle.render x).toList = (if x.negative then ['-'] else []) ++ body ∧
        n.Spells body q ∧ x.Attracts q := by
  have hlead : ∀ lead, floatStyle.positional lead = true → lead < 16 := by
    simp [floatStyle]
  obtain ⟨n, body, q, htext, hn, hq, -⟩ :=
    DecimalStyle.exists_numeral (show floatStyle.point = true from rfl) hlead x
  exact ⟨n, body, q, htext, hn, hq⟩

/-- **The text of a finite double denotes a double**, though not always the one that was written. -/
theorem exists_denotes_render (x : Binary64) :
    ∃ y, Denotes (floatStyle.render x).toList (.float y) := by
  by_cases hx : x.exponent < 971 ∨ x.significand ≤ fullBound - 3
  · obtain ⟨n, body, q, htext, hn, hq⟩ := exists_spells_render x
    obtain ⟨y, hy⟩ :=
      exists_numeralValue hn (hq.le_upper.trans (Binary64.upper_le_scalable hx)) x.negative
    exact ⟨y, x.negative, n, body, hn.text_eq ▸ numeralText_text hn.valid, htext, hy⟩
  · obtain ⟨negative, m, e, hlt, hleast, hle, hcanonical⟩ := x
    obtain ⟨he, hm⟩ := not_or.1 hx
    have hlow : 9007199254740989 < m := not_le.1 hm
    have hhigh : m < 9007199254740992 := hlt
    obtain rfl : e = 971 := by simp only at he; omega
    obtain rfl | rfl : m = fullBound - 1 ∨ m = fullBound - 2 := by
      rw [fullBound]
      omega
    · exact exists_denotes_of_isFloatText (isFloatText_greatest negative).1
    · exact exists_denotes_of_isFloatText (isFloatText_greatest negative).2

end Json

/-! ## Doubles read again -/

/-- The double that is read from the text of a double. -/
def Number.Binary64.reread (x : Binary64) : Binary64 :=
  match Json.read? (Json.write (.float x)) with
  | some (.float y) => y
  | _ => x

namespace Json

theorem reread_of_denotes {x y : Binary64}
    (h : Denotes (floatStyle.render x).toList (.float y)) : x.reread = y := by
  obtain ⟨j, hj, hread⟩ := read?_of_spelled (.number h) blank_nil
  obtain rfl : j = .float y := hj
  have hwrite : read? (write (.float x)) = some (.float y) := by simpa [write] using hread
  rw [Binary64.reread, hwrite]

/-- The text of a double spells out the reread one. -/
theorem denotes_render (x : Binary64) : Denotes (floatStyle.render x).toList (.float x.reread) := by
  obtain ⟨y, hy⟩ := exists_denotes_render x
  rwa [reread_of_denotes hy]

/-- A numeral of at most 15 digits, without an exponent, is read as the double nearest to it. -/
theorem numeralValue_of_length_le {whole ds : List Char} {x : Binary64}
    (hn : Numeral.Valid ⟨whole, some ds, none⟩) (hlen : whole.length + ds.length ≤ 15)
    (hx : 0 < x.significand)
    (h : x.Attracts (digitsValue (whole ++ ds) * 10 ^ (-ds.length : Int))) (negative : Bool) :
    numeralValue negative ⟨whole, some ds, none⟩ = .float { x with negative } := by
  obtain ⟨hne, hds⟩ := hn.fraction_digits ds rfl
  have hlt : digitsValue (whole ++ ds) < 10 ^ 15 := by
    refine (digitsValue_lt fun c hc => ?_).trans_le (Nat.pow_le_pow_right (by decide) (by simpa))
    exact (List.mem_append.1 hc).elim (hn.whole_digits c) (hds c)
  have hwhole : accumulate 0 whole = (digitsValue whole, []) :=
    accumulate_of_length_le hn.whole_digits (by omega)
  have hall : accumulate (digitsValue whole) ds = (digitsValue (whole ++ ds), []) := by
    rw [digitsValue_append] at hlt ⊢
    exact accumulate_of_le _ _ (by omega)
  have hscaled := Binary64.scaled?_of_attracts hx (hlt.trans (by decide))
    (List.length_pos_iff.2 hne) (by omega) h
  show decimalValue negative whole ds 0 = _
  rw [decimalValue, hwhole]
  simp [hall, floatValue, hscaled]

theorem reread_zero : ∀ negative : Bool,
    (Binary64.zero negative).reread = Binary64.zero negative := by
  decide +kernel

/-- **A double is read back** when its text has at most 15 digits and no exponent. -/
theorem reread_eq_self {x : Binary64} (hplain : 'e' ∉ (floatStyle.render x).toList)
    (hdigits : (floatStyle.render x).toList.countP isDigit ≤ 15) : x.reread = x := by
  rcases Nat.eq_zero_or_pos x.significand with hx | hx
  · obtain ⟨negative, m, e, hlt, hleast, hle, hcanonical⟩ := x
    obtain rfl : m = 0 := hx
    obtain rfl : e = -1074 := hcanonical.resolve_right (by decide)
    exact reread_zero negative
  · obtain ⟨⟨whole, fraction, exponent⟩, body, q, htext, hn, hq⟩ := exists_spells_render x
    have hbody := hn.text_eq
    simp only [Numeral.text] at hbody
    obtain rfl : exponent = none := by
      cases exponent with
      | none => rfl
      | some e => exact absurd (by rw [htext, hbody]; simp [Numeral.exponentText]) hplain
    obtain ⟨ds, rfl⟩ : ∃ ds, fraction = some ds :=
      Option.isSome_iff_exists.1 (hn.isDecimal.resolve_right (by simp))
    have hwhole : whole.countP isDigit = whole.length :=
      List.countP_eq_length.2 hn.valid.whole_digits
    have hds : ds.countP isDigit = ds.length :=
      List.countP_eq_length.2 (hn.valid.fraction_digits ds rfl).2
    have hlen : whole.length + ds.length ≤ 15 := by
      rw [htext, hbody] at hdigits
      simp only [Option.elim, List.append_nil, List.countP_append, List.countP_cons, hwhole,
        hds] at hdigits
      omega
    rw [← hn.magnitude_eq x.negative] at hq
    have hvalue := numeralValue_of_length_le hn.valid hlen hx
      (by simpa [Decimal.magnitude, Numeral.decimal] using hq) x.negative
    exact reread_of_denotes
      ⟨x.negative, _, body, hn.text_eq ▸ numeralText_text hn.valid, htext, hvalue⟩

/-! ## The doubles of a value -/

mutual

/-- The value with its doubles replaced. -/
@[simp] def mapFloats (f : Binary64 → Binary64) : Json → Json
  | .null => .null
  | .bool b => .bool b
  | .integer i => .integer i
  | .float x => .float (f x)
  | .unreadable => .unreadable
  | .string s => .string s
  | .array items => .array (mapFloatsItems f items)
  | .object fields => .object (mapFloatsFields f fields)

/-- The items with their doubles replaced. -/
@[simp] def mapFloatsItems (f : Binary64 → Binary64) : List Json → List Json
  | [] => []
  | item :: items => mapFloats f item :: mapFloatsItems f items

/-- The fields with the doubles of their values replaced. -/
@[simp] def mapFloatsFields (f : Binary64 → Binary64) : List (String × Json) → List (String × Json)
  | [] => []
  | (name, value) :: fields => (name, mapFloats f value) :: mapFloatsFields f fields

end

mutual

/-- The doubles in a value, from left to right. -/
def floats : Json → List Binary64
  | .float x => [x]
  | .array items => floatsItems items
  | .object fields => floatsFields fields
  | .null | .bool _ | .integer _ | .unreadable | .string _ => []

/-- The doubles in the items. -/
def floatsItems : List Json → List Binary64
  | [] => []
  | item :: items => floats item ++ floatsItems items

/-- The doubles in the values of the fields. -/
def floatsFields : List (String × Json) → List Binary64
  | [] => []
  | (_, value) :: fields => floats value ++ floatsFields fields

end

section

variable {f : Binary64 → Binary64}

mutual

/-- **A value stays** when its doubles are replaced, exactly when each of them stays. -/
theorem mapFloats_eq_self_iff : ∀ j : Json, j.mapFloats f = j ↔ ∀ x ∈ j.floats, f x = x
  | .null | .bool _ | .integer _ | .unreadable | .string _ => by simp [floats]
  | .float x => by simp [floats]
  | .array items => by simp [floats, mapFloatsItems_eq_self_iff items]
  | .object fields => by simp [floats, mapFloatsFields_eq_self_iff fields]

theorem mapFloatsItems_eq_self_iff : ∀ items : List Json,
    mapFloatsItems f items = items ↔ ∀ x ∈ floatsItems items, f x = x
  | [] => by simp [floatsItems]
  | item :: items => by
    simp [floatsItems, mapFloats_eq_self_iff item, mapFloatsItems_eq_self_iff items, or_imp,
      forall_and]

theorem mapFloatsFields_eq_self_iff : ∀ fields : List (String × Json),
    mapFloatsFields f fields = fields ↔ ∀ x ∈ floatsFields fields, f x = x
  | [] => by simp [floatsFields]
  | (_, value) :: fields => by
    simp [floatsFields, mapFloats_eq_self_iff value, mapFloatsFields_eq_self_iff fields, or_imp,
      forall_and]

end

end

theorem mapFloatsItems_eq (f : Binary64 → Binary64) (items : List Json) :
    mapFloatsItems f items = items.map (mapFloats f) := by
  induction items with
  | nil => rfl
  | cons item items ih => simp [ih]

end Json

end Transact
