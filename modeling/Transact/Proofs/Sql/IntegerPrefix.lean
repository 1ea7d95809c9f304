import Transact.Proofs.Calendar.RoundTrip
import Transact.Sql.Literal

/-!
# Texts that are bound to integer columns

Such a text is written as the integer at its front. `Numeral` says what stands for an integer:
digits, perhaps after a sign.

* `Numeral.longest`: a numeral is the longest one at the front of a text when no digit follows it.
* `exists_longestNumeral`: a text has a longest one, and its integer is what is read.
* `longestNumeral_trimEnd`: blanks at the end of the text do not count.
* `literal_longestNumeral`: so a text is written as its longest numeral says, and the text of a
  64-bit integer, between blanks and anything but a digit, as this integer.
-/

set_option autoImplicit false

namespace Transact.Sql

open Text Number

/-! ## Numerals -/

/-- Digits after an optional sign, and the integer that they stand for. There need not be any. -/
inductive Numeral : List Char → Int → Prop
  | unsigned {ds : List Char} (hds : ∀ c ∈ ds, isDigit c = true) : Numeral ds (digitsValue ds)
  | positive {ds : List Char} (hds : ∀ c ∈ ds, isDigit c = true) :
    Numeral ('+' :: ds) (digitsValue ds)
  | negative {ds : List Char} (hds : ∀ c ∈ ds, isDigit c = true) :
    Numeral ('-' :: ds) (-digitsValue ds)

/-- `p` is the longest numeral at the front of the text, and stands for `v`. -/
structure LongestNumeral (text p : List Char) (v : Int) : Prop where
  numeral : Numeral p v
  isPrefix : p <+: text
  longest : ∀ {q : List Char} {w : Int}, Numeral q w → q <+: text → q.length ≤ p.length

/-- A prefix of two texts one after the other lies within the first, or goes on with the first
character of the second. -/
theorem prefix_append_cases {p q rest : List Char} (h : q <+: p ++ rest) :
    q <+: p ∨ ∃ c more, q = p ++ c :: more ∧ rest.head? = some c := by
  rcases List.prefix_or_prefix_of_prefix h (List.prefix_append p rest) with hle | ⟨more, rfl⟩
  · exact .inl hle
  cases more with
  | nil => exact .inl (by simp)
  | cons c more =>
    obtain ⟨after, hafter⟩ := (List.prefix_append_right_inj p).1 h
    exact .inr ⟨c, more, rfl, by rw [← hafter]; rfl⟩

namespace Numeral

variable {p : List Char} {v w : Int}

/-- Only the first character may be a sign. -/
theorem chars (h : Numeral p v) :
    (∀ c ∈ p.tail, isDigit c = true) ∧
      ∀ c ∈ p.head?, isDigit c = true ∨ c = '+' ∨ c = '-' := by
  cases h with
  | unsigned hds =>
    exact ⟨fun c hc => hds c (List.mem_of_mem_tail hc),
      fun c hc => .inl (hds c (List.mem_of_mem_head? hc))⟩
  | positive hds => exact ⟨hds, fun c hc => .inr (.inl (Option.some.inj hc).symm)⟩
  | negative hds => exact ⟨hds, fun c hc => .inr (.inr (Option.some.inj hc).symm)⟩

theorem isBlank_of_mem (h : Numeral p v) {c : Char} (hc : c ∈ p) : isBlank c = false := by
  obtain ⟨htail, hhead⟩ := h.chars
  cases p with
  | nil => cases hc
  | cons d ds =>
    rcases List.mem_cons.1 hc with rfl | hc
    · rcases hhead c rfl with hdigit | rfl | rfl
      · exact Calendar.isBlank_of_isDigit hdigit
      · rfl
      · rfl
    · exact Calendar.isBlank_of_isDigit (htail c hc)

/-- A numeral stands for one integer. -/
theorem functional (hv : Numeral p v) (hw : Numeral p w) : v = w := by
  have hplus : isDigit '+' ≠ true := by decide
  have hminus : isDigit '-' ≠ true := by decide
  cases hv with
  | unsigned hds =>
    cases hw with
    | unsigned => rfl
    | positive => exact absurd (hds _ List.mem_cons_self) hplus
    | negative => exact absurd (hds _ List.mem_cons_self) hminus
  | positive =>
    cases hw with
    | unsigned hds => exact absurd (hds _ List.mem_cons_self) hplus
    | positive => rfl
  | negative =>
    cases hw with
    | unsigned hds => exact absurd (hds _ List.mem_cons_self) hminus
    | negative => rfl

/-- **A numeral is the longest one** when no digit follows it, and when no sign follows where there
is nothing of it. -/
theorem longest {rest : List Char} (h : Numeral p v) (hrest : NoDigit rest)
    (hsign : p = [] → rest.head? ≠ some '+' ∧ rest.head? ≠ some '-') :
    LongestNumeral (p ++ rest) p v := by
  refine ⟨h, List.prefix_append _ _, fun {q w} hq hfront => ?_⟩
  rcases prefix_append_cases hfront with hle | ⟨c, more, rfl, hc⟩
  · exact hle.length_le
  -- a longer numeral goes on with `c`, which is then a digit, or a sign with nothing before it
  have hdigit : isDigit c ≠ true := by simp [hrest c hc]
  obtain ⟨htail, hhead⟩ := hq.chars
  cases p with
  | nil =>
    rcases hhead c rfl with h | rfl | rfl
    · exact absurd h hdigit
    · exact absurd hc (hsign rfl).1
    · exact absurd hc (hsign rfl).2
  | cons d ds => exact absurd (htail c (by simp)) hdigit

/-- The decimal text of an integer is a numeral that stands for it. -/
theorem of_integer : ∀ i : Int, Numeral (integer i).toList i
  | .ofNat n => by
    have h := unsigned fun _ => isDigit_of_mem_digits (n := n)
    rw [digitsValue_digits] at h
    simpa [integer, natural] using h
  | .negSucc n => by
    have h := negative fun _ => isDigit_of_mem_digits (n := n + 1)
    rw [digitsValue_digits] at h
    simpa [integer, natural, Int.negSucc_eq] using h

end Numeral

theorem LongestNumeral.unique {text p p' : List Char} {v v' : Int} (h : LongestNumeral text p v)
    (h' : LongestNumeral text p' v') : p = p' ∧ v = v' := by
  have hle : p.length ≤ p'.length := h'.longest h.numeral h.isPrefix
  have hge : p'.length ≤ p.length := h.longest h'.numeral h'.isPrefix
  obtain rfl : p = p' :=
    (List.prefix_of_prefix_length_le h.isPrefix h'.isPrefix hle).eq_of_length
      (Nat.le_antisymm hle hge)
  exact ⟨rfl, h.numeral.functional h'.numeral⟩

/-! ## The integer at the front of a text -/

theorem any_isDigit {ds : List Char} (hds : ∀ c ∈ ds, isDigit c = true) :
    ds.any isDigit = !ds.isEmpty := by
  cases ds with
  | nil => rfl
  | cons d ds => simp [hds d List.mem_cons_self]

theorem sign_cases (text : List Char) :
    (∃ cs, text = '-' :: cs ∧ sign text = (true, cs)) ∨
      (∃ cs, text = '+' :: cs ∧ sign text = (false, cs)) ∨
      (sign text = (false, text) ∧ text.head? ≠ some '+' ∧ text.head? ≠ some '-') := by
  unfold sign
  split
  case h_1 cs => exact .inl ⟨cs, rfl, rfl⟩
  case h_2 cs => exact .inr (.inl ⟨cs, rfl, rfl⟩)
  case h_3 hminus hplus =>
    refine .inr (.inr ⟨rfl, fun h => ?_, fun h => ?_⟩)
    · obtain ⟨cs, hcs⟩ := List.head?_eq_some_iff.1 h
      exact hplus cs hcs
    · obtain ⟨cs, hcs⟩ := List.head?_eq_some_iff.1 h
      exact hminus cs hcs

/-- The digits in front of a text, and the rest, which no digit is in front of. -/
theorem digits_run (cs : List Char) :
    (∀ c ∈ cs.takeWhile isDigit, isDigit c = true) ∧ NoDigit (cs.dropWhile isDigit) := by
  refine ⟨List.all_eq_true.1 List.all_takeWhile, fun c hc => ?_⟩
  have h := List.head?_dropWhile_not isDigit cs
  rwa [hc] at h

theorem leadingInteger?_of_sign {text cs : List Char} {negative : Bool}
    (h : sign text = (negative, cs)) :
    leadingInteger? text =
      if (cs.takeWhile isDigit).any isDigit then
        some (if negative then -(digitsValue (cs.takeWhile isDigit) : Int)
          else digitsValue (cs.takeWhile isDigit))
      else none := by
  simp only [leadingInteger?, h, any_isDigit (digits_run cs).1]
  cases (cs.takeWhile isDigit).isEmpty <;> cases negative <;> rfl

/-- **The integer that is read** is that of the longest numeral, if this has a digit. -/
theorem exists_longestNumeral (text : List Char) :
    ∃ p v, LongestNumeral text p v ∧
      leadingInteger? text = if p.any isDigit then some v else none := by
  obtain ⟨cs, rfl, hsign⟩ | ⟨cs, rfl, hsign⟩ | ⟨hsign, hplus, hminus⟩ := sign_cases text
  · obtain ⟨hds, hno⟩ := digits_run cs
    have hlongest := (Numeral.negative hds).longest hno fun h => by cases h
    rw [List.cons_append, List.takeWhile_append_dropWhile] at hlongest
    exact ⟨_, _, hlongest, leadingInteger?_of_sign hsign⟩
  · obtain ⟨hds, hno⟩ := digits_run cs
    have hlongest := (Numeral.positive hds).longest hno fun h => by cases h
    rw [List.cons_append, List.takeWhile_append_dropWhile] at hlongest
    exact ⟨_, _, hlongest, leadingInteger?_of_sign hsign⟩
  · obtain ⟨hds, hno⟩ := digits_run text
    have hsplit := List.takeWhile_append_dropWhile (p := isDigit) (l := text)
    have hlongest := (Numeral.unsigned hds).longest hno fun h => by
      rw [h, List.nil_append] at hsplit
      rw [hsplit]
      exact ⟨hplus, hminus⟩
    rw [hsplit] at hlongest
    exact ⟨_, _, hlongest, leadingInteger?_of_sign hsign⟩

theorem leadingInteger?_eq {text p : List Char} {v : Int} (h : LongestNumeral text p v) :
    leadingInteger? text = if p.any isDigit then some v else none := by
  obtain ⟨p', v', h', hread⟩ := exists_longestNumeral text
  obtain ⟨rfl, rfl⟩ := h.unique h'
  exact hread

/-! ## Blanks around it -/

theorem exists_trimEnd (text : List Char) :
    ∃ blanks, text = trimEnd text ++ blanks ∧ ∀ c ∈ blanks, isBlank c = true := by
  refine ⟨(text.reverse.takeWhile isBlank).reverse, ?_, fun c hc => ?_⟩
  · rw [trimEnd, ← List.reverse_append, List.takeWhile_append_dropWhile, List.reverse_reverse]
  · exact List.all_eq_true.1 List.all_takeWhile c (List.mem_reverse.1 hc)

/-- Blanks at the end of the text do not count. -/
theorem longestNumeral_trimEnd {text p : List Char} {v : Int} :
    LongestNumeral (trimEnd text) p v ↔ LongestNumeral text p v := by
  have hfront : ∀ {q : List Char} {w : Int}, Numeral q w → (q <+: trimEnd text ↔ q <+: text) := by
    intro q w hq
    obtain ⟨blanks, htext, hblanks⟩ := exists_trimEnd text
    constructor
    · intro h
      rw [htext]
      exact h.trans (List.prefix_append _ _)
    · intro h
      rw [htext] at h
      rcases prefix_append_cases h with h | ⟨c, more, rfl, hc⟩
      · exact h
      · -- a numeral that reached into the blanks would hold one
        have hblank := hq.isBlank_of_mem (c := c) (by simp)
        rw [hblanks c (List.mem_of_mem_head? hc)] at hblank
        cases hblank
  constructor
  · rintro ⟨hp, hpre, hlong⟩
    exact ⟨hp, (hfront hp).1 hpre, fun hq h => hlong hq ((hfront hq).2 h)⟩
  · rintro ⟨hp, hpre, hlong⟩
    exact ⟨hp, (hfront hp).2 hpre, fun hq h => hlong hq ((hfront hq).1 h)⟩

theorem trimStart_numeral {blanks p : List Char} {v : Int}
    (hblanks : ∀ c ∈ blanks, isBlank c = true) (h : Numeral p v) (hne : p ≠ [])
    (after : List Char) :
    trimStart (blanks ++ p ++ after) = p ++ after := by
  rw [trimStart, List.append_assoc, List.dropWhile_append_of_pos hblanks]
  cases p with
  | nil => exact absurd rfl hne
  | cons c cs => simp [h.isBlank_of_mem List.mem_cons_self]

/-! ## Constants -/

theorem any_isDigit_integer (i : Int) : (integer i).toList.any isDigit = true := by
  have hdigits : ∀ n : Nat, (digits n).any isDigit = true := fun n => by
    simp [any_isDigit fun _ => isDigit_of_mem_digits, digits_ne_nil]
  cases i with
  | ofNat n => simp [integer, natural, -List.any_eq_true, hdigits]
  | negSucc n => simp [integer, natural, -List.any_eq_true, hdigits]

theorem fitsInt64_iff {v : Int} :
    fitsInt64 v = true ↔ Int64.minValue.toInt ≤ v ∧ v ≤ Int64.maxValue.toInt := by
  rw [fitsInt64, Bool.and_eq_true, decide_eq_true_iff, decide_eq_true_iff]
  rfl

theorem integerPrefix_eq {s : String} {p : List Char} {v : Int}
    (h : LongestNumeral (trimStart s.toList) p v) :
    integerPrefix s =
      if p.any isDigit ∧ Int64.minValue.toInt ≤ v ∧ v ≤ Int64.maxValue.toInt then v else 0 := by
  rw [integerPrefix, leadingInteger?_eq h]
  simp only [← fitsInt64_iff]
  cases p.any isDigit with
  | false => simp
  | true => simp

/-- **A text that is bound to an integer column** is written as the integer of the longest numeral
at its front, blanks apart; as `0` if it has no digit or the integer does not fit in 64 bits. So the
text of every 64-bit integer, after blanks and before anything but a digit, is written as this
integer. -/
theorem literal_longestNumeral :
    (∀ s : String, ∃ p v, LongestNumeral (trim s).toList p v) ∧
    (∀ (s : String) (p : List Char) (v : Int), LongestNumeral (trim s).toList p v →
      literal (.string s) (some .integer) =
        integer
          (if p.any isDigit ∧ Int64.minValue.toInt ≤ v ∧ v ≤ Int64.maxValue.toInt then v else 0)) ∧
    (∀ (i : Int64) (blanks after : List Char), (∀ c ∈ blanks, isBlank c = true) → NoDigit after →
      literal (.string (String.ofList (blanks ++ (integer i.toInt).toList ++ after)))
          (some .integer) =
        literal (.integer i) (some .integer)) := by
  have htrim : ∀ {s : String} {p : List Char} {v : Int},
      LongestNumeral (trim s).toList p v ↔ LongestNumeral (trimStart s.toList) p v := by
    intro s p v
    rw [trim, String.toList_ofList, longestNumeral_trimEnd]
  refine ⟨fun s => ?_, fun s p v h => ?_, fun i blanks after hblanks hafter => ?_⟩
  · obtain ⟨p, v, h, -⟩ := exists_longestNumeral (trimStart s.toList)
    exact ⟨p, v, htrim.2 h⟩
  · rw [literal, integerPrefix_eq (htrim.1 h)]
  · have hnumeral := Numeral.of_integer i.toInt
    have hany := any_isDigit_integer i.toInt
    have hne : (integer i.toInt).toList ≠ [] := fun h => by
      rw [h] at hany
      cases hany
    have hlongest := hnumeral.longest hafter fun h => absurd h hne
    rw [← trimStart_numeral hblanks hnumeral hne after] at hlongest
    have hfits := And.intro i.minValue_le_toInt i.toInt_le
    rw [literal, integerPrefix_eq (by rwa [String.toList_ofList]), if_pos ⟨hany, hfits⟩]
    rfl

theorem literal_longestNumeral_weights :
    LongestNumeral (trim " +007 kg").toList "+007".toList 7 ∧
      literal (.string " +007 kg") (some .integer) = "7" ∧
      (isBlank '\t' = true ∧ NoDigit ".5".toList) ∧
      literal (.string "\t-9223372036854775808.5") (some .integer) =
        literal (.integer Int64.minValue) (some .integer) := by
  have hdigits : ∀ c ∈ "007".toList, isDigit c = true := List.all_eq_true.1 (by decide)
  have htab : ∀ c ∈ ['\t'], isBlank c = true := List.all_eq_true.1 (by decide)
  have hblank : NoDigit " kg".toList := noDigit_cons rfl
  have hlongest : LongestNumeral (trim " +007 kg").toList "+007".toList 7 :=
    (Numeral.positive hdigits).longest hblank (by decide)
  have hpoint : NoDigit ".5".toList := noDigit_cons rfl
  obtain ⟨-, hfront, hinteger⟩ := literal_longestNumeral
  refine ⟨hlongest, (hfront _ _ _ hlongest).trans (by decide), ⟨by decide, hpoint⟩, ?_⟩
  exact hinteger Int64.minValue ['\t'] ".5".toList htab hpoint

end Transact.Sql
