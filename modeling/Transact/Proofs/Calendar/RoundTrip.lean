import Transact.Calendar.Reader
import Transact.Calendar.Writer
import Transact.Proofs.Text.Digits

/-!
# Written dates and times read back

Every date, time and timestamp is read from its exact text. Main statements:

* `Date.read_text`: for all years, with a sign outside 0 to 9999.
* `TimeOfDay.read_exactText`: for all fractions of a second and for leap seconds.
* `Timestamp.read_exactText`.
-/

set_option autoImplicit false

namespace Transact.Calendar

open Transact.Text

/-! ## Parts -/

theorem trimStart_cons {c : Char} {cs : List Char} (h : isBlank c = false) :
    trimStart (c :: cs) = c :: cs := by
  simp [trimStart, h]

theorem isBlank_of_isDigit {c : Char} (h : isDigit c = true) : isBlank c = false := by
  have hlow : 48 ≤ c.toNat := by
    simp only [isDigit, Bool.and_eq_true, decide_eq_true_eq] at h
    exact h.1
  have hhigh : c.toNat ≤ 57 := by
    simp only [isDigit, Bool.and_eq_true, decide_eq_true_eq] at h
    exact h.2
  simp only [isBlank, Bool.or_eq_false_iff, Bool.and_eq_false_iff, decide_eq_false_iff_not,
    beq_eq_false_iff_ne]
  omega

theorem trimStart_digits {ds cs : List Char} (hne : ds ≠ []) (hds : ∀ c ∈ ds, isDigit c = true) :
    trimStart (ds ++ cs) = ds ++ cs := by
  cases ds with
  | nil => exact absurd rfl hne
  | cons c ds => exact trimStart_cons (isBlank_of_isDigit (hds c List.mem_cons_self))

theorem padded_ne_nil {width : Nat} (hw : 0 < width) (n : Nat) : (padded width n).toList ≠ [] := by
  have := le_length_padded width n
  rw [← List.length_pos_iff]
  omega

/-- A number in a fixed number of digits is read back, whatever follows. -/
theorem numeral_padded {width n : Nat} (hw : 0 < width) (h : n < 10 ^ width) (cs : List Char) :
    numeral (some width) ((padded width n).toList ++ cs) = .ok (n, cs) := by
  have hlen := length_padded hw h
  have hne := padded_ne_nil hw n
  have hrun : (((padded width n).toList ++ cs).takeWhile isDigit).take width =
      (padded width n).toList := by
    rw [List.takeWhile_append_of_pos fun _ hc => isDigit_of_mem_padded hc]
    exact List.take_left' hlen
  unfold numeral
  simp only [hrun]
  rw [if_neg (by simp [hne]), if_neg (by simp [hne]), digitsValue_padded, List.drop_left]

/-- A number in any number of digits is read back, up to the next character that is none. -/
theorem numeral_none {width n : Nat} (hw : 0 < width) {cs : List Char} (hcs : NoDigit cs) :
    numeral none ((padded width n).toList ++ cs) = .ok (n, cs) := by
  have hne := padded_ne_nil hw n
  have hdigits : ∀ c ∈ (padded width n).toList, isDigit c = true := fun _ => isDigit_of_mem_padded
  obtain ⟨hrun, -⟩ := takeWhile_digits hdigits hcs
  unfold numeral
  simp only [hrun]
  rw [if_neg (by simp [hne]), if_neg (by simp [hne]), digitsValue_padded, List.drop_left]

theorem field_padded {least greatest n : Nat} (hleast : least ≤ n) (hgreatest : n ≤ greatest)
    (h : n < 100) (cs : List Char) :
    field least greatest ((padded 2 n).toList ++ cs) = .ok (n, cs) := by
  unfold field
  rw [trimStart_digits (padded_ne_nil (by decide) n) fun _ hc => isDigit_of_mem_padded hc,
    numeral_padded (by decide) h]
  simp [bind, Except.bind, hleast, hgreatest]

theorem mark_cons {c : Char} (h : isBlank c = false) (cs : List Char) :
    mark c (c :: cs) = .ok cs := by
  rw [mark, trimStart_cons h]
  exact if_pos rfl

/-- A digit in front is no other character. -/
theorem digits_append_ne {ds : List Char} (hne : ds ≠ []) (hds : ∀ c ∈ ds, isDigit c = true)
    {c : Char} (hc : isDigit c = false) (cs after : List Char) : ds ++ cs ≠ c :: after := by
  intro h
  cases ds with
  | nil => exact hne rfl
  | cons d ds =>
    cases h
    rw [hds c List.mem_cons_self] at hc
    cases hc

/-! ## Dates -/

/-- A year is read back: with a sign in any number of digits, without one in four. -/
theorem year_yearText {y : Int} (hlow : -262143 ≤ y) (hhigh : y ≤ 262142) {cs : List Char}
    (hcs : NoDigit cs) : year ((yearText y).toList ++ cs) = .ok (y, cs) := by
  have hfits : -2147483648 ≤ y ∧ y ≤ 2147483647 := by omega
  have hdigits : ∀ c ∈ (padded 4 y.natAbs).toList, isDigit c = true :=
    fun _ => isDigit_of_mem_padded
  have hne := padded_ne_nil (by decide : 0 < 4) y.natAbs
  have hany := numeral_none (n := y.natAbs) (by decide : 0 < 4) hcs
  unfold yearText year
  by_cases hneg : y < 0
  · have habs : -(y.natAbs : Int) = y := by omega
    rw [if_pos hneg, String.toList_append, List.append_assoc]
    simp only [String.reduceToList, List.cons_append, List.nil_append,
      trimStart_cons (show isBlank '-' = false from rfl), hany, bind, Except.bind, pure,
      Except.pure]
    rw [habs, if_pos hfits]
  have habs : (y.natAbs : Int) = y := by omega
  rw [if_neg hneg]
  by_cases hbig : 9999 < y
  · rw [if_pos hbig, String.toList_append, List.append_assoc]
    simp only [String.reduceToList, List.cons_append, List.nil_append,
      trimStart_cons (show isBlank '+' = false from rfl), hany, bind, Except.bind, pure,
      Except.pure]
    rw [habs, if_pos hfits]
  · have hfour := numeral_padded (by decide : 0 < 4) (show y.natAbs < 10 ^ 4 by omega) cs
    have hminus := digits_append_ne hne hdigits (show isDigit '-' = false from rfl) cs
    have hplus := digits_append_ne hne hdigits (show isDigit '+' = false from rfl) cs
    rw [if_neg hbig, trimStart_digits hne hdigits]
    simp only [hfour, bind, Except.bind, pure, Except.pure]
    rw [habs, if_pos hfits]

theorem daysIn_le (year : Int) (month : Nat) : daysIn year month ≤ 31 := by
  unfold daysIn
  split
  · split <;> omega
  · split <;> omega

theorem yearMonthDay_text (d : Date) (cs : List Char) :
    yearMonthDay (d.text.toList ++ cs) = .ok ((d.year, d.month, d.day), cs) := by
  obtain ⟨y, m, day, hlow, hhigh, hm, hm', hd, hd'⟩ := d
  have hday : day ≤ 31 := Nat.le_trans hd' (daysIn_le y m)
  have htext : Date.text ⟨y, m, day, hlow, hhigh, hm, hm', hd, hd'⟩ =
      yearText y ++ "-" ++ padded 2 m ++ "-" ++ padded 2 day := rfl
  have hsep : isBlank '-' = false := rfl
  rw [htext]
  unfold yearMonthDay
  simp only [String.toList_append, String.reduceToList, List.append_assoc, List.cons_append,
    List.nil_append]
  rw [year_yearText hlow hhigh (noDigit_cons rfl)]
  simp only [bind, Except.bind, mark_cons hsep, field_padded hm hm' (by omega),
    field_padded hd hday (by omega)]

theorem of?_date (d : Date) : Date.of? d.year d.month d.day = some d := dif_pos d.isDay

/-- A date is read from its text. -/
theorem Date.read_text (d : Date) : Date.read d.text = .ok d := by
  have hparts := yearMonthDay_text d []
  rw [List.append_nil] at hparts
  rw [Date.read, hparts]
  simp [bind, Except.bind, finish, trimStart, of?_date, inRange]

/-! ## Times -/

/-- Digits of a fraction denote the nanoseconds that they are when filled up with zeros. -/
theorem digitsValue_rightpad {ds : List Char} (h : ds.length ≤ 9) :
    digitsValue ((ds.take 9).rightpad 9 '0') = 10 ^ (9 - ds.length) * digitsValue ds := by
  rw [List.take_of_length_le h, List.rightpad, digitsValue_append, digitsValue_zeros,
    List.length_replicate, Nat.add_zero]

theorem fraction_padded {width n : Nat} (hw : 0 < width) (hw' : width ≤ 9) (h : n < 10 ^ width) :
    fraction ('.' :: (padded width n).toList) = .ok (10 ^ (9 - width) * n, []) := by
  have hne := padded_ne_nil hw n
  have hlen := length_padded hw h
  have hdigits : ∀ c ∈ (padded width n).toList, isDigit c = true := fun _ => isDigit_of_mem_padded
  have hrun := (takeWhile_digits hdigits noDigit_nil).1
  rw [List.append_nil] at hrun
  have hvalue : digitsValue (((padded width n).toList.take 9).rightpad 9 '0') =
      10 ^ (9 - width) * n := by
    rw [digitsValue_rightpad (by omega), hlen, digitsValue_padded]
  unfold fraction
  simp only [hrun, hvalue]
  rw [if_neg (by simp [hne]), if_neg (by simp [hne]), List.drop_length]

/-- A fraction of a second is read back from the fewest groups of digits that are exact. -/
theorem fraction_fractionText {ns : Nat} (h : ns < 1000000000) :
    fraction (fractionText ns).toList = .ok (ns, []) := by
  have hpoint : ∀ width n, ("." ++ padded width n).toList = '.' :: (padded width n).toList := by
    intro width n
    rw [String.toList_append]
    rfl
  unfold fractionText
  by_cases h0 : ns = 0
  · subst h0
    rfl
  rw [if_neg h0]
  by_cases h3 : ns % 1000000 = 0
  · rw [if_pos h3, hpoint, fraction_padded (by decide) (by decide) (by omega)]
    congr 2
    omega
  rw [if_neg h3]
  by_cases h6 : ns % 1000 = 0
  · rw [if_pos h6, hpoint, fraction_padded (by decide) (by decide) (by omega)]
    congr 2
    omega
  · rw [if_neg h6, hpoint, fraction_padded (by decide) (by decide) h]
    congr 2
    omega

theorem hourMinute_clock (t : TimeOfDay) (cs : List Char) :
    hourMinute (t.clock.toList ++ cs) =
      .ok ((t.hour, t.minute), ':' :: ((padded 2 t.second).toList ++ cs)) := by
  obtain ⟨hhour, hminute, -, -⟩ := t.isTime
  unfold hourMinute TimeOfDay.clock
  simp only [String.toList_append, String.reduceToList, List.append_assoc, List.cons_append,
    List.nil_append]
  rw [field_padded (Nat.zero_le _) hhour (by omega)]
  simp only [bind, Except.bind, mark_cons (show isBlank ':' = false from rfl),
    field_padded (Nat.zero_le _) hminute (by omega)]

theorem seconds_exact (t : TimeOfDay) :
    seconds (':' :: ((padded 2 t.second).toList ++ (fractionText t.nanosecond).toList)) =
      .ok ((t.second, t.nanosecond), []) := by
  obtain ⟨-, -, hsecond, hnano⟩ := t.isTime
  unfold seconds
  simp only [bind, Except.bind, mark_cons (show isBlank ':' = false from rfl),
    field_padded (Nat.zero_le _) hsecond (by omega), fraction_fractionText hnano]

theorem of?_time (t : TimeOfDay) :
    TimeOfDay.of? t.hour t.minute t.second t.nanosecond = some t :=
  dif_pos t.isTime

/-- A time is read from its exact text. -/
theorem TimeOfDay.read_exactText (t : TimeOfDay) : TimeOfDay.read t.exactText = .ok t := by
  rw [TimeOfDay.read, TimeOfDay.exactText, String.toList_append, hourMinute_clock]
  simp [bind, Except.bind, seconds_exact, finish, trimStart, of?_time, inRange]

/-- A timestamp is read from its exact text. -/
theorem Timestamp.read_exactText (t : Timestamp) : Timestamp.read t.exactText = .ok t := by
  have hdate := yearMonthDay_text t.date ('T' :: t.time.exactText.toList)
  have htime := hourMinute_clock t.time (fractionText t.time.nanosecond).toList
  have htext : t.exactText.toList = t.date.text.toList ++ 'T' :: t.time.exactText.toList := by
    simp [Timestamp.exactText]
  rw [Timestamp.read, htext, hdate]
  simp only [bind, Except.bind, mark_cons (show isBlank 'T' = false from rfl)]
  rw [TimeOfDay.exactText, String.toList_append, htime]
  simp [seconds_exact, finish, trimStart, of?_date, of?_time, inRange]

end Transact.Calendar
