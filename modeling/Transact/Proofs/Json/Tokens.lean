import Mathlib.Data.List.TakeWhile
import Transact.Json.Reader
import Transact.Json.Writer
import Transact.Proofs.Number.Shortest

/-!
# Texts and numbers of JSON

How texts and numbers are spelled, in every way that the reader takes, and what the writer puts out
among them. Main statements:

* `Json.Units.units?`, `Json.units_of_units?`: the characters of a text stand for its code units
  exactly when they are read as those.
* `Json.units_flatMap_escaped`: a text is written in characters that stand for it.
* `Json.Denotes.number?`, `Json.denotes_of_number?`: a numeral, with or without a point and an
  exponent, has the value that is read.
* `Json.accumulate_of_le`, `Json.accumulate_le`: the digits that a significand of 64 bits takes.
* `Json.denotes_integer`: integers of 64 bits are written as such numerals.
-/

set_option autoImplicit false

namespace Transact.Json

open Text Number

/-! ## Texts -/

/-- The characters between the quotation marks of a text, with the code units that they stand
for. -/
inductive Units : List Char → List Nat → Prop where
  | nil : Units [] []
  | plain {c : Char} {cs : List Char} {us : List Nat} (hquote : c ≠ '"') (hback : c ≠ '\\')
      (hc : ¬c.toNat < 0x20) (h : Units cs us) : Units (c :: cs) (c.toNat :: us)
  | simple {c : Char} {u : Nat} {cs : List Char} {us : List Nat} (hu : simpleEscape? c = some u)
      (h : Units cs us) : Units ('\\' :: c :: cs) (u :: us)
  | numbered {a b c d : Char} {u : Nat} {cs : List Char} {us : List Nat}
      (hu : hexUnit? a b c d = some u) (h : Units cs us) :
      Units ('\\' :: 'u' :: a :: b :: c :: d :: cs) (u :: us)

/-- The text that code units stand for, unless half of a surrogate pair stands alone. -/
def unitText? (us : List Nat) : Option String := (unitChars? us).map String.ofList

theorem units?_simple {e : Char} {unit : Nat} (hu : e ≠ 'u') (h : simpleEscape? e = some unit)
    (rest : List Char) :
    units? ('\\' :: e :: rest) = (units? rest).map fun (us, tail) => (unit :: us, tail) := by
  rw [units?]
  · rw [h]
    cases units? rest <;> rfl
  · intro _ _ _ _ _ he _
    exact hu he

theorem units?_numbered {a b c d : Char} {unit : Nat} (h : hexUnit? a b c d = some unit)
    (rest : List Char) :
    units? ('\\' :: 'u' :: a :: b :: c :: d :: rest) =
      (units? rest).map fun (us, tail) => (unit :: us, tail) := by
  rw [units?, h]
  cases units? rest <;> rfl

theorem units?_plain {c : Char} (hquote : c ≠ '"') (hback : c ≠ '\\') (hc : ¬c.toNat < 0x20)
    (rest : List Char) :
    units? (c :: rest) = (units? rest).map fun (us, tail) => (c.toNat :: us, tail) := by
  rw [units?]
  · rw [if_neg (by simp [hc, hback])]
    cases units? rest <;> rfl
  · exact hquote
  · intro _ _ _ _ _ he _
    exact hback he
  · intro _ _ he _
    exact hback he

/-- A control character is written with two hexadecimal digits that denote it. -/
theorem hexUnit?_control : ∀ n : Fin 32,
    (Nat.toDigits 16 n.val).leftpad 2 '0' =
        [Nat.digitChar (n.val / 16), Nat.digitChar (n.val % 16)] ∧
      hexUnit? '0' '0' (Nat.digitChar (n.val / 16)) (Nat.digitChar (n.val % 16)) = some n.val := by
  decide

theorem Units.units? {cs : List Char} {us : List Nat} (h : Units cs us) (rest : List Char) :
    Json.units? (cs ++ '"' :: rest) = some (us, rest) := by
  induction h with
  | nil => simp [Json.units?]
  | plain hquote hback hc _ ih => rw [List.cons_append, units?_plain hquote hback hc, ih]; rfl
  | @simple c u cs us hu _ ih =>
    have hne : c ≠ 'u' := by
      rintro rfl
      cases hu
    rw [List.cons_append, List.cons_append, units?_simple hne hu, ih]
    rfl
  | numbered hu _ ih =>
    simp only [List.cons_append]
    rw [units?_numbered hu, ih]
    rfl

theorem units_of_units? {cs rest : List Char} {us : List Nat} (h : units? cs = some (us, rest)) :
    ∃ front, cs = front ++ '"' :: rest ∧ Units front us := by
  fun_induction units? cs generalizing us with
  | case1 => cases h
  | case2 rest' =>
    cases h
    exact ⟨[], rfl, .nil⟩
  | case3 a b c d rest' ih =>
    simp only [Option.bind_eq_bind, Option.bind_eq_some_iff, Option.pure_def, Option.some.injEq,
      Prod.mk.injEq] at h
    obtain ⟨u, hu, ⟨us', tail⟩, htail, rfl, rfl⟩ := h
    obtain ⟨front, rfl, hfront⟩ := ih htail
    exact ⟨_, rfl, .numbered hu hfront⟩
  | case4 c rest' hother ih =>
    simp only [Option.bind_eq_bind, Option.bind_eq_some_iff, Option.pure_def, Option.some.injEq,
      Prod.mk.injEq] at h
    obtain ⟨u, hu, ⟨us', tail⟩, htail, rfl, rfl⟩ := h
    obtain ⟨front, rfl, hfront⟩ := ih htail
    exact ⟨_, rfl, .simple hu hfront⟩
  | case5 c rest' hquote _ _ hbad => cases h
  | case6 c rest' hquote _ _ hgood ih =>
    simp only [Option.bind_eq_bind, Option.bind_eq_some_iff, Option.pure_def, Option.some.injEq,
      Prod.mk.injEq] at h
    obtain ⟨⟨us', tail⟩, htail, rfl, rfl⟩ := h
    obtain ⟨front, rfl, hfront⟩ := ih htail
    simp only [Bool.or_eq_true, decide_eq_true_eq, not_or] at hgood
    exact ⟨_, rfl, .plain hquote hgood.2 hgood.1 hfront⟩

/-- One written character stands for one unit, its code point. -/
theorem Units.escaped (c : Char) {cs : List Char} {us : List Nat} (h : Units cs us) :
    Units (Json.escaped c ++ cs) (c.toNat :: us) := by
  unfold Json.escaped
  split_ifs with h1 h2 h3 h4 h5 h6 h7 h8
  · subst h1
    exact .simple rfl h
  · subst h2
    exact .simple rfl h
  · exact .simple (h3 ▸ rfl) h
  · exact .simple (h4 ▸ rfl) h
  · exact .simple (h5 ▸ rfl) h
  · exact .simple (h6 ▸ rfl) h
  · exact .simple (h7 ▸ rfl) h
  · obtain ⟨hdigits, hvalue⟩ := hexUnit?_control ⟨c.toNat, h8⟩
    simp only at hdigits hvalue
    rw [hdigits]
    exact .numbered hvalue h
  · exact .plain h1 h2 h8 h

/-- A written text stands for the code points of its characters. -/
theorem units_flatMap_escaped : ∀ cs : List Char, Units (cs.flatMap escaped) (cs.map Char.toNat)
  | [] => .nil
  | c :: cs => (units_flatMap_escaped cs).escaped c

/-- A character is no half of a surrogate pair. -/
theorem isHigh_toNat (c : Char) : isHigh c.toNat = false ∧ isLow c.toNat = false := by
  have hvalid : c.toNat < 55296 ∨ 57343 < c.toNat ∧ c.toNat < 1114112 := c.valid
  simp only [isHigh, isLow, Bool.and_eq_false_iff, decide_eq_false_iff_not]
  omega

theorem unitChars?_map_toNat : ∀ cs : List Char, unitChars? (cs.map Char.toNat) = some cs
  | [] => rfl
  | [c] => by simp [unitChars?, isHigh_toNat c]
  | c :: d :: cs => by
    have ih := unitChars?_map_toNat (d :: cs)
    rw [List.map_cons] at ih
    simp [unitChars?, isHigh_toNat c, ih]

theorem unitText?_map_toNat (s : String) : unitText? (s.toList.map Char.toNat) = some s := by
  simp [unitText?, unitChars?_map_toNat]

/-! ## Numbers -/

/-- Nothing in front continues a number. -/
structure Stops (cs : List Char) : Prop where
  noDigit : NoDigit cs
  noPoint : cs.head? ≠ some '.'
  noExponent : cs.head? ≠ some 'e' ∧ cs.head? ≠ some 'E'

theorem fractionDigits?_some {ds cs : List Char} (hne : ds ≠ [])
    (hds : ∀ c ∈ ds, isDigit c = true) (hcs : NoDigit cs) :
    fractionDigits? ('.' :: (ds ++ cs)) = some (some ds, cs) := by
  obtain ⟨htake, hdrop⟩ := takeWhile_digits hds hcs
  simp [fractionDigits?, htake, hdrop, hne]

theorem fractionDigits?_none {cs : List Char} (h : cs.head? ≠ some '.') :
    fractionDigits? cs = some (none, cs) := by
  unfold fractionDigits?
  split
  · exact absurd rfl h
  · rfl

/-- The sign of an exponent: a minus, or a plus or nothing. -/
def SignText : Bool → List Char → Prop
  | true, mark => mark = ['-']
  | false, mark => mark = [] ∨ mark = ['+']

/-- The text of an exponent: a letter, a sign and digits. Without an exponent there is none. -/
inductive ExponentText : Option Int → List Char → Prop where
  | absent : ExponentText none []
  | present {letter : Char} {negative : Bool} {mark ds : List Char}
      (hletter : letter = 'e' ∨ letter = 'E') (hmark : SignText negative mark) (hne : ds ≠ [])
      (hds : ∀ c ∈ ds, isDigit c = true) :
      ExponentText (some (if negative then -digitsValue ds else digitsValue ds))
        (letter :: (mark ++ ds))

theorem sign_digits {negative : Bool} {mark ds cs : List Char} (hmark : SignText negative mark)
    (hne : ds ≠ []) (hds : ∀ c ∈ ds, isDigit c = true) :
    sign (mark ++ (ds ++ cs)) = (negative, ds ++ cs) := by
  cases negative with
  | true =>
    subst hmark
    rfl
  | false =>
    rcases hmark with rfl | rfl
    · -- a digit in front is no sign
      cases ds with
      | nil => exact absurd rfl hne
      | cons d ds =>
        have hd := hds d List.mem_cons_self
        unfold sign
        split
        · rename_i heq
          cases heq
          cases hd
        · rename_i heq
          cases heq
          cases hd
        · rfl
    · rfl

theorem exponentValue?_some {e : Int} {text cs : List Char} (h : ExponentText (some e) text)
    (hcs : NoDigit cs) : exponentValue? (text ++ cs) = some (some e, cs) := by
  cases h with
  | present hletter hmark hne hds =>
    obtain ⟨htake, hdrop⟩ := takeWhile_digits hds hcs
    simp [exponentValue?, hletter, sign_digits hmark hne hds, htake, hdrop, hne]

theorem exponentValue?_none {cs : List Char} (h : cs.head? ≠ some 'e' ∧ cs.head? ≠ some 'E') :
    exponentValue? cs = some (none, cs) := by
  cases cs with
  | nil => rfl
  | cons c cs =>
    have hc : ¬(c = 'e' ∨ c = 'E') := by
      rintro (rfl | rfl)
      · exact h.1 rfl
      · exact h.2 rfl
    simp [exponentValue?, hc]

/-- The value of a numeral: an integer without point and exponent, a decimal otherwise. -/
def numeralValue (negative : Bool) (n : Numeral) : Json :=
  match n.fraction, n.exponent with
  | none, none => integerValue negative n.whole
  | _, _ => decimalValue negative n.whole (n.fraction.getD []) (n.exponent.getD 0)

/-- A number is read part by part: the digits up to `mid`, the fraction up to `tail` and the
exponent up to `rest`. -/
theorem number?_of_parts {whole mid tail rest : List Char} {fraction : Option (List Char)}
    {exponent : Option Int} (negative : Bool) (hdigits : ∀ c ∈ whole, isDigit c = true)
    (hne : whole ≠ []) (hhead : 1 < whole.length → whole.head? ≠ some '0') (hmid : NoDigit mid)
    (hfraction : fractionDigits? mid = some (fraction, tail))
    (hexponent : exponentValue? tail = some (exponent, rest)) :
    number? ((if negative then ['-'] else []) ++ (whole ++ mid)) =
      some (numeralValue negative ⟨whole, fraction, exponent⟩, rest) := by
  obtain ⟨htake, hdrop⟩ := takeWhile_digits hdigits hmid
  have hgood : (whole.isEmpty || (decide (whole.length > 1) && decide (whole.head? = some '0'))) =
      false := by
    simp only [Bool.or_eq_false_iff, List.isEmpty_eq_false_iff, Bool.and_eq_false_iff,
      decide_eq_false_iff_not]
    exact ⟨hne, not_or_of_imp hhead⟩
  -- a digit in front is no sign
  have hsign : ∀ after, whole ++ mid = '-' :: after → False := by
    intro after h
    cases whole with
    | nil => exact hne rfl
    | cons c whole =>
      cases h
      exact absurd (hdigits '-' List.mem_cons_self) (by decide)
  unfold number?
  cases negative with
  | true =>
    simp only [if_true, List.cons_append, List.nil_append, htake, hdrop, hgood, hfraction,
      Bool.false_eq_true, if_false, Option.bind_eq_bind, Option.bind_some, hexponent]
    cases fraction <;> cases exponent <;> rfl
  | false =>
    simp only [List.nil_append, htake, hdrop, hgood, hfraction, Bool.false_eq_true, if_false,
      Option.bind_eq_bind, Option.bind_some, hexponent]
    cases fraction <;> cases exponent <;> rfl

/-- The text of a numeral, with or without a point and an exponent. -/
structure NumeralText (n : Numeral) (text : List Char) : Prop where
  valid : n.Valid
  parts : ∃ exponent, ExponentText n.exponent exponent ∧
    text = n.whole ++ (n.fraction.elim [] ('.' :: ·) ++ exponent)

/-- The text of a numeral is read as the numeral, up to the first character that is not part of
it. -/
theorem number?_numeral {n : Numeral} {text : List Char} (hn : NumeralText n text) (negative : Bool)
    {rest : List Char} (hrest : Stops rest) :
    number? ((if negative then ['-'] else []) ++ (text ++ rest)) =
      some (numeralValue negative n, rest) := by
  obtain ⟨whole, fraction, exponent⟩ := n
  obtain ⟨⟨hdigits, hne, hhead, hfraction⟩, exponentText, hexponent, rfl⟩ := hn
  simp only at hdigits hne hhead hfraction hexponent
  -- what follows the fraction
  obtain ⟨tail, htail⟩ : ∃ tail, exponentText ++ rest = tail := ⟨_, rfl⟩
  have hexp : NoDigit tail ∧ tail.head? ≠ some '.' ∧
      exponentValue? tail = some (exponent, rest) := by
    subst htail
    cases hexponent with
    | absent => exact ⟨hrest.noDigit, hrest.noPoint, exponentValue?_none hrest.noExponent⟩
    | present hletter hmark hne hds =>
      refine ⟨noDigit_cons ?_, ?_,
        exponentValue?_some (.present hletter hmark hne hds) hrest.noDigit⟩ <;>
      rcases hletter with rfl | rfl <;> simp [isDigit]
  obtain ⟨hdigit, hpoint, hexponent⟩ := hexp
  rw [List.append_assoc, List.append_assoc, htail]
  cases fraction with
  | none =>
    exact number?_of_parts negative hdigits hne hhead hdigit (fractionDigits?_none hpoint) hexponent
  | some ds =>
    obtain ⟨hds, hdsdigits⟩ := hfraction ds rfl
    exact number?_of_parts negative hdigits hne hhead (noDigit_cons rfl)
      (fractionDigits?_some hds hdsdigits hdigit) hexponent

/-- The text is that of a number, and `j` is its value. -/
def Denotes (text : List Char) (j : Json) : Prop :=
  ∃ (negative : Bool) (n : Numeral) (unsigned : List Char), NumeralText n unsigned ∧
    text = (if negative then ['-'] else []) ++ unsigned ∧ numeralValue negative n = j

theorem Denotes.number? {text rest : List Char} {j : Json} (h : Denotes text j)
    (hrest : Stops rest) : number? (text ++ rest) = some (j, rest) := by
  obtain ⟨negative, n, unsigned, hn, rfl, rfl⟩ := h
  rw [List.append_assoc]
  exact number?_numeral hn negative hrest

/-- A number has the value of an integer or of a double, or none. -/
theorem Denotes.value {text : List Char} {j : Json} (h : Denotes text j) :
    (∃ i, j = .integer i) ∨ (∃ x, j = .float x) ∨ j = .unreadable := by
  obtain ⟨negative, n, -, -, -, rfl⟩ := h
  unfold numeralValue integerValue decimalValue floatValue
  grind

/-- A number starts with its sign or a digit. -/
theorem Denotes.head {text : List Char} {j : Json} (h : Denotes text j) :
    ∃ c cs, text = c :: cs ∧ (c = '-' ∨ isDigit c = true) := by
  obtain ⟨negative, n, _, ⟨hvalid, exponent, -, rfl⟩, rfl, -⟩ := h
  cases negative with
  | true => exact ⟨_, _, rfl, .inl rfl⟩
  | false =>
    cases hw : n.whole with
    | nil => exact absurd hw hvalid.whole_ne_nil
    | cons c cs =>
      have hc := hvalid.whole_digits c (by rw [hw]; exact List.mem_cons_self)
      exact ⟨_, _, rfl, .inr hc⟩

theorem exists_signText (cs : List Char) :
    ∃ mark, SignText (sign cs).1 mark ∧ cs = mark ++ (sign cs).2 := by
  unfold sign
  split
  · exact ⟨['-'], rfl, rfl⟩
  · exact ⟨['+'], .inr rfl, rfl⟩
  · exact ⟨[], .inl rfl, rfl⟩

theorem exponentText_of_exponentValue? {cs rest : List Char} {e : Option Int}
    (h : exponentValue? cs = some (e, rest)) : ∃ text, ExponentText e text ∧ cs = text ++ rest := by
  cases cs with
  | nil =>
    cases h
    exact ⟨[], .absent, rfl⟩
  | cons c cs =>
    simp only [exponentValue?] at h
    split at h
    · rename_i hletter
      obtain ⟨mark, hmark, hcs⟩ := exists_signText cs
      split at h
      · cases h
      · rename_i hne
        simp only [Option.some.injEq, Prod.mk.injEq] at h
        obtain ⟨rfl, rfl⟩ := h
        have hletter : c = 'e' ∨ c = 'E' := by simpa using hletter
        have hne : (sign cs).2.takeWhile isDigit ≠ [] := by simpa using hne
        refine ⟨_, .present hletter hmark hne fun d hd => List.mem_takeWhile_imp hd, ?_⟩
        rw [List.cons_append, List.append_assoc, List.takeWhile_append_dropWhile, ← hcs]
    · cases h
      exact ⟨[], .absent, rfl⟩

theorem of_fractionDigits? {cs rest : List Char} {fraction : Option (List Char)}
    (h : fractionDigits? cs = some (fraction, rest)) :
    cs = fraction.elim [] ('.' :: ·) ++ rest ∧
      ∀ ds, fraction = some ds → ds ≠ [] ∧ ∀ c ∈ ds, isDigit c = true := by
  unfold fractionDigits? at h
  split at h
  · simp only at h
    split at h
    · cases h
    · rename_i hne
      cases h
      refine ⟨by simp, ?_⟩
      rintro ds ⟨⟩
      exact ⟨by simpa using hne, fun c hc => List.mem_takeWhile_imp hc⟩
  · cases h
    exact ⟨rfl, by simp⟩

/-- A number after its sign. -/
def unsigned? (negative : Bool) (cs : List Char) : Option (Json × List Char) :=
  let whole := cs.takeWhile isDigit
  if whole.isEmpty || (whole.length > 1 && whole.head? = some '0') then none
  else do
    let (fraction, rest) ← fractionDigits? (cs.dropWhile isDigit)
    let (exponent, rest) ← exponentValue? rest
    pure (numeralValue negative ⟨whole, fraction, exponent⟩, rest)

theorem number?_eq_unsigned? (cs : List Char) : ∃ (negative : Bool) (unsigned : List Char),
    cs = (if negative then ['-'] else []) ++ unsigned ∧
      number? cs = unsigned? negative unsigned := by
  unfold number? unsigned?
  split
  rename_i negative unsigned hsign
  refine ⟨negative, unsigned, by split at hsign <;> cases hsign <;> rfl, ?_⟩
  refine ite_congr rfl (fun _ => rfl) fun _ => ?_
  refine bind_congr fun (fraction, _) => bind_congr fun (exponent, _) => ?_
  cases fraction <;> cases exponent <;> rfl

/-- What is read as a number is the text of a number. -/
theorem denotes_of_number? {cs rest : List Char} {j : Json} (h : number? cs = some (j, rest)) :
    ∃ front, cs = front ++ rest ∧ Denotes front j := by
  obtain ⟨negative, unsigned, hcs, hnumber⟩ := number?_eq_unsigned? cs
  simp only [hnumber, unsigned?] at h
  split at h
  · cases h
  · rename_i hwhole
    simp only [Bool.or_eq_true, Bool.and_eq_true, decide_eq_true_eq, not_or, not_and,
      List.isEmpty_iff] at hwhole
    simp only [Option.bind_eq_bind, Option.bind_eq_some_iff, Option.pure_def, Option.some.injEq,
      Prod.mk.injEq] at h
    obtain ⟨⟨fraction, mid⟩, hfraction, ⟨exponent, tail⟩, hexponent, rfl, rfl⟩ := h
    obtain ⟨hmid, hdigits⟩ := of_fractionDigits? hfraction
    obtain ⟨text, htext, htail⟩ := exponentText_of_exponentValue? hexponent
    simp only at hmid htail
    refine ⟨_, ?_, negative, ⟨unsigned.takeWhile isDigit, fraction, exponent⟩, _,
      ⟨⟨fun c hc => List.mem_takeWhile_imp hc, hwhole.1, hwhole.2, hdigits⟩, text, htext, rfl⟩,
      rfl, rfl⟩
    rw [hcs, List.append_assoc, List.append_assoc, List.append_assoc, ← htail, ← hmid,
      List.takeWhile_append_dropWhile]

/-- A valid numeral is written as the text of a numeral. -/
theorem numeralText_text {n : Numeral} (hn : n.Valid) : NumeralText n n.text := by
  refine ⟨hn, n.exponent.elim [] Numeral.exponentText, ?_, by simp [Numeral.text]⟩
  cases n.exponent with
  | none => exact .absent
  | some e =>
    have hdigits : ∀ c ∈ digits e.natAbs, isDigit c = true := fun _ hc => isDigit_of_mem_digits hc
    rcases lt_or_ge e 0 with he | he
    · have h := ExponentText.present (.inl rfl) (show SignText true ['-'] from rfl)
        (digits_ne_nil e.natAbs) hdigits
      simpa [Numeral.exponentText, he, abs_of_neg he] using h
    · have h := ExponentText.present (.inl rfl) (show SignText false ['+'] from .inr rfl)
        (digits_ne_nil e.natAbs) hdigits
      simpa [Numeral.exponentText, not_lt.2 he, abs_of_nonneg he] using h

/-! ## Significands -/

/-- Digits whose value fits are all taken. -/
theorem accumulate_of_le (n : Nat) (cs : List Char)
    (h : 10 ^ cs.length * n + digitsValue cs ≤ 18446744073709551615) :
    accumulate n cs = (10 ^ cs.length * n + digitsValue cs, []) := by
  induction cs generalizing n with
  | nil => simp [accumulate, digitsValue]
  | cons c cs ih =>
    have hvalue : 10 ^ (c :: cs).length * n + digitsValue (c :: cs) =
        10 ^ cs.length * (10 * n + digitValue c) + digitsValue cs := by
      rw [digitsValue_cons, List.length_cons]
      ring
    rw [hvalue] at h ⊢
    have hle := Nat.le_mul_of_pos_left (10 * n + digitValue c) (Nat.pow_pos (n := cs.length)
      (show 0 < 10 by decide))
    rw [accumulate, if_pos (by omega), ih _ h]

theorem accumulate_digits {n : Nat} (h : n ≤ 18446744073709551615) :
    accumulate 0 (digits n) = (n, []) := by
  simpa using accumulate_of_le 0 (digits n) (by simpa using h)

/-- Digits that are left only count as zeros. -/
theorem accumulate_le (n : Nat) (cs : List Char) :
    (accumulate n cs).1 * 10 ^ (accumulate n cs).2.length ≤
      10 ^ cs.length * n + digitsValue cs := by
  induction cs generalizing n with
  | nil => simp [accumulate]
  | cons c cs ih =>
    rw [accumulate]
    split
    · refine (ih _).trans (le_of_eq ?_)
      rw [digitsValue_cons, List.length_cons]
      ring
    · rw [Nat.mul_comm]
      exact Nat.le_add_right _ _

/-- The text of an integer that fits in 64 bits, signed or not, denotes it. -/
theorem denotes_integer {i : Int} (hlow : -9223372036854775808 ≤ i)
    (hhigh : i ≤ 18446744073709551615) : Denotes (Text.integer i).toList (.integer i) := by
  have hvalid : ∀ n, Numeral.Valid ⟨digits n, none, none⟩ := by
    intro n
    refine ⟨fun _ hd => isDigit_of_mem_digits hd, digits_ne_nil n, fun hlen => ?_, by simp⟩
    apply head_digits_ne
    by_contra hn
    obtain rfl : n = 0 := by omega
    exact absurd hlen (by decide)
  cases i with
  | ofNat n =>
    have hn : n ≤ 18446744073709551615 := by simpa using hhigh
    refine ⟨false, _, _, numeralText_text (hvalid n), ?_, ?_⟩
    · simp [Text.integer, natural, Numeral.text]
    · simp [numeralValue, integerValue, accumulate_digits hn]
  | negSucc n =>
    have hn : n + 1 ≤ 9223372036854775808 := by omega
    refine ⟨true, _, _, numeralText_text (hvalid (n + 1)), ?_, ?_⟩
    · simp [Text.integer, natural, Numeral.text]
    · simp [numeralValue, integerValue, accumulate_digits (n := n + 1) (by omega), hn,
        Int.negSucc_eq]

end Transact.Json
