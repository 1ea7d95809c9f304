import Transact.Proofs.Calendar.RoundTrip
import Transact.Proofs.Sql.Closed
import Transact.Proofs.Sql.Expression

/-!
# Bytes, dates and times read back

Bytes are read from pairs of hexadecimal digits, dates and times from columns of a fixed width: two
digits for each part, three for the fraction of a second, and four for a year without a sign.

* `Calendar.date?_text`, `Calendar.time?_milliText`, `Calendar.timestamp?_milliText`: dates, times
  and timestamps are read back, down to the millisecond.
* `Sql.utf8_eq`: the bytes of a text are those of its encoding in UTF-8.
* `Sql.literal_value_read`: so constants of these kinds are written as what they stand for.
-/

set_option autoImplicit false

namespace Transact

open Text

namespace Calendar

/-! ## Columns -/

/-- Exactly `width` digits. -/
def column? (width : Nat) (cs : List Char) : Option (Nat × List Char) :=
  if (cs.take width).length = width ∧ (cs.take width).all isDigit then
    some (digitsValue (cs.take width), cs.drop width)
  else none

/-- What follows the character that the text has to begin with. -/
def after? (c : Char) : List Char → Option (List Char)
  | [] => none
  | d :: cs => if d = c then some cs else none

/-- At least four digits. -/
def longYear? (cs : List Char) : Option (Nat × List Char) :=
  if 4 ≤ (cs.takeWhile isDigit).length then
    some (digitsValue (cs.takeWhile isDigit), cs.dropWhile isDigit)
  else none

/-- A year of four digits, or of more after a sign. -/
def year? : List Char → Option (Int × List Char)
  | '-' :: cs => do
    let (n, rest) ← longYear? cs
    some (-(n : Int), rest)
  | '+' :: cs => do
    let (n, rest) ← longYear? cs
    some ((n : Int), rest)
  | cs => do
    let (n, rest) ← column? 4 cs
    some ((n : Int), rest)

/-- The date at the front of a text, and the rest. -/
def date? (cs : List Char) : Option (Date × List Char) := do
  let (y, cs) ← year? cs
  let cs ← after? '-' cs
  let (m, cs) ← column? 2 cs
  let cs ← after? '-' cs
  let (d, cs) ← column? 2 cs
  let date ← Date.of? y m d
  some (date, cs)

/-- The time at the front of a text, in milliseconds, and the rest. -/
def time? (cs : List Char) : Option (TimeOfDay × List Char) := do
  let (h, cs) ← column? 2 cs
  let cs ← after? ':' cs
  let (m, cs) ← column? 2 cs
  let cs ← after? ':' cs
  let (s, cs) ← column? 2 cs
  let cs ← after? '.' cs
  let (ms, cs) ← column? 3 cs
  let time ← TimeOfDay.of? h m s (1000000 * ms)
  some (time, cs)

/-- The date at the front of a text, a blank and the time after it, and the rest. -/
def timestamp? (cs : List Char) : Option (Timestamp × List Char) := do
  let (date, cs) ← date? cs
  let cs ← after? ' ' cs
  let (time, cs) ← time? cs
  some (⟨date, time⟩, cs)

theorem column?_padded {width n : Nat} (hw : 0 < width) (h : n < 10 ^ width) (rest : List Char) :
    column? width ((padded width n).toList ++ rest) = some (n, rest) := by
  have hlen := length_padded hw h
  have htake : ((padded width n).toList ++ rest).take width = (padded width n).toList :=
    List.take_left' hlen
  have hdigits : (padded width n).toList.all isDigit = true :=
    List.all_eq_true.2 fun _ => isDigit_of_mem_padded
  rw [column?, htake, if_pos ⟨hlen, hdigits⟩, digitsValue_padded, List.drop_left' hlen]

theorem after?_cons (c : Char) (cs : List Char) : after? c (c :: cs) = some cs := if_pos rfl

theorem longYear?_padded (n : Nat) {rest : List Char} (hrest : NoDigit rest) :
    longYear? ((padded 4 n).toList ++ rest) = some (n, rest) := by
  have hdigits : ∀ c ∈ (padded 4 n).toList, isDigit c = true := fun _ => isDigit_of_mem_padded
  obtain ⟨htake, hdrop⟩ := takeWhile_digits hdigits hrest
  rw [longYear?, htake, hdrop, if_pos (le_length_padded 4 n), digitsValue_padded]

/-! ## Dates and times -/

theorem year?_yearText (y : Int) {rest : List Char} (hrest : NoDigit rest) :
    year? ((yearText y).toList ++ rest) = some (y, rest) := by
  have hlong := longYear?_padded y.natAbs hrest
  unfold yearText
  by_cases hneg : y < 0
  · have habs : -(y.natAbs : Int) = y := by omega
    rw [if_pos hneg, String.toList_append, List.append_assoc]
    simp only [String.reduceToList, List.cons_append, List.nil_append, year?, hlong,
      Option.bind_eq_bind, Option.bind_some, habs]
  have habs : (y.natAbs : Int) = y := by omega
  rw [if_neg hneg]
  by_cases hbig : 9999 < y
  · rw [if_pos hbig, String.toList_append, List.append_assoc]
    simp only [String.reduceToList, List.cons_append, List.nil_append, year?, hlong,
      Option.bind_eq_bind, Option.bind_some, habs]
  · -- no sign stands in front, so it is the last case of `year?` that reads the digits
    have hfour := column?_padded (by decide : 0 < 4) (show y.natAbs < 10 ^ 4 by omega) rest
    have hne := padded_ne_nil (by decide : 0 < 4) y.natAbs
    have hdigits : ∀ c ∈ (padded 4 y.natAbs).toList, isDigit c = true :=
      fun _ => isDigit_of_mem_padded
    have hminus := digits_append_ne hne hdigits (show isDigit '-' = false from rfl) rest
    have hplus := digits_append_ne hne hdigits (show isDigit '+' = false from rfl) rest
    have hread : year? ((padded 4 y.natAbs).toList ++ rest) = some ((y.natAbs : Int), rest) := by
      rw [year?, hfour]
      · rfl
      · exact hminus
      · exact hplus
    rw [if_neg hbig, hread, habs]

theorem date?_text (d : Date) (rest : List Char) :
    date? (d.text.toList ++ rest) = some (d, rest) := by
  obtain ⟨-, -, -, hmonth, -, hday⟩ := d.isDay
  have hday : d.day < 10 ^ 2 := by
    have := daysIn_le d.year d.month
    omega
  have htext : d.text.toList ++ rest = (yearText d.year).toList ++
      '-' :: ((padded 2 d.month).toList ++ '-' :: ((padded 2 d.day).toList ++ rest)) := by
    simp [Date.text]
  rw [htext, date?, year?_yearText d.year (noDigit_cons rfl)]
  simp only [Option.bind_eq_bind, Option.bind_some, after?_cons,
    column?_padded (by decide : 0 < 2) (show d.month < 10 ^ 2 by omega),
    column?_padded (by decide : 0 < 2) hday, of?_date]

/-- The time without what is left of the last millisecond. -/
def TimeOfDay.truncated (t : TimeOfDay) : TimeOfDay where
  hour := t.hour
  minute := t.minute
  second := t.second
  nanosecond := 1000000 * (t.nanosecond / 1000000)
  isTime := by
    obtain ⟨hhour, hminute, hsecond, hnano⟩ := t.isTime
    exact ⟨hhour, hminute, hsecond, by omega⟩

theorem time?_milliText (t : TimeOfDay) (rest : List Char) :
    time? (t.milliText.toList ++ rest) = some (t.truncated, rest) := by
  obtain ⟨hhour, hminute, hsecond, hnano⟩ := t.isTime
  have htext : t.milliText.toList ++ rest = (padded 2 t.hour).toList ++
      ':' :: ((padded 2 t.minute).toList ++ ':' :: ((padded 2 t.second).toList ++
        '.' :: ((padded 3 (t.nanosecond / 1000000)).toList ++ rest))) := by
    simp [TimeOfDay.milliText, TimeOfDay.clock]
  rw [htext, time?]
  simp only [Option.bind_eq_bind, Option.bind_some, after?_cons,
    column?_padded (by decide : 0 < 2) (show t.hour < 10 ^ 2 by omega),
    column?_padded (by decide : 0 < 2) (show t.minute < 10 ^ 2 by omega),
    column?_padded (by decide : 0 < 2) (show t.second < 10 ^ 2 by omega),
    column?_padded (by decide : 0 < 3) (show t.nanosecond / 1000000 < 10 ^ 3 by omega)]
  rw [show TimeOfDay.of? t.hour t.minute t.second (1000000 * (t.nanosecond / 1000000)) =
    some t.truncated from of?_time t.truncated, Option.bind_some]

theorem timestamp?_milliText (t : Timestamp) (rest : List Char) :
    timestamp? (t.milliText.toList ++ rest) = some (⟨t.date, t.time.truncated⟩, rest) := by
  have htext : t.milliText.toList ++ rest =
      t.date.text.toList ++ ' ' :: (t.time.milliText.toList ++ rest) := by
    simp [Timestamp.milliText]
  rw [htext, timestamp?, date?_text]
  simp only [Option.bind_eq_bind, Option.bind_some, after?_cons, time?_milliText]

end Calendar

namespace Sql

open Calendar

/-! ## Bytes -/

/-- The bytes of a text are those that it is encoded as. -/
theorem utf8_eq (s : String) : utf8 s = s.toUTF8.data.toList := by
  have hbytes : s.toByteArray = s.toList.utf8Encode := by
    rw [← String.toByteArray_ofList, String.ofList_toList]
  rw [String.toUTF8, hbytes, List.utf8Encode, List.data_toByteArray, utf8]

/-! ## Texts without apostrophes -/

theorem escapeAfter_eq_self : ∀ (before : Char) {cs : List Char}, apostrophe ∉ cs →
    escapeAfter before cs = cs
  | _, [], _ => rfl
  | before, c :: cs, h => by
    have hc : c ≠ apostrophe := fun he => h (by rw [he]; exact List.mem_cons_self)
    have ih := escapeAfter_eq_self c fun hmem => h (List.mem_cons_of_mem _ hmem)
    rw [escapeAfter.eq_def]
    simp only [if_neg hc, ih]

theorem quoted_of_isPlain {text : String} (h : IsPlain text) :
    quoted text = "'" ++ text ++ "'" := by
  have hnot : apostrophe ∉ text.toList := fun hmem =>
    absurd (List.all_eq_true.1 h _ hmem) (by decide)
  rw [quoted, escapeAfter_eq_self _ hnot, ← String.toList_inj]
  simp [apostrophe]

/-! ## Constants -/

/-- A timestamp is written in full unless the column holds only a part of it. -/
theorem literal_dateTime (t : Timestamp) {ty : Option ColumnType} (hdate : ty ≠ some .date)
    (htime : ty ≠ some .time) : literal (.dateTime t) ty = quoted t.milliText := by
  cases ty with
  | none => rfl
  | some ty =>
    cases ty with
    | date => exact absurd rfl hdate
    | time => exact absurd rfl htime
    | string | narrowString | integer | float | boolean | binary | dateTime => rfl

/-- A leap second is written as such. -/
theorem infix_leapSecond {t : TimeOfDay} (h : t.second = 60) :
    ":60.".toList <:+: t.milliText.toList := by
  refine ⟨(padded 2 t.hour ++ ":" ++ padded 2 t.minute).toList,
    (padded 3 (t.nanosecond / 1000000)).toList, ?_⟩
  have hsixty : (padded 2 60).toList = ['6', '0'] := by decide
  simp [TimeOfDay.milliText, TimeOfDay.clock, h, hsixty]

/-- **Bytes, dates and times are written as what they stand for**: bytes are read back from pairs of
digits, and so are those that a text bound to a binary column is encoded as; dates, times and
timestamps are read back from between the apostrophes, down to the millisecond. A timestamp is
written as its date, a blank and its time, unless it is bound to a column of only one of these. -/
theorem literal_value_read :
    (∀ (bytes : List UInt8) (ty : Option ColumnType), ∃ ds,
      (literal (.binary bytes) ty).toList = '0' :: 'x' :: ds ∧ bytes? ds = some bytes) ∧
    (∀ s : String,
      literal (.string s) (some .binary) = literal (.binary s.toUTF8.data.toList) none) ∧
    (∀ (d : Date) (ty : Option ColumnType), ∃ text,
      literal (.date d) ty = "'" ++ text ++ "'" ∧ date? text.toList = some (d, [])) ∧
    (∀ (t : TimeOfDay) (ty : Option ColumnType), ∃ text,
      literal (.time t) ty = "'" ++ text ++ "'" ∧ time? text.toList = some (t.truncated, []) ∧
        (t.second = 60 → ":60.".toList <:+: text.toList)) ∧
    (∀ t : Timestamp, ∃ date time,
      literal (.dateTime t) (some .date) = "'" ++ date ++ "'" ∧
      literal (.dateTime t) (some .time) = "'" ++ time ++ "'" ∧
      date? date.toList = some (t.date, []) ∧
      time? time.toList = some (t.time.truncated, []) ∧
      (t.time.second = 60 → ":60.".toList <:+: time.toList) ∧
      ∀ ty, ty ≠ some .date → ty ≠ some .time →
        literal (.dateTime t) ty = "'" ++ (date ++ " " ++ time) ++ "'" ∧
          timestamp? (date ++ " " ++ time).toList = some (⟨t.date, t.time.truncated⟩, [])) := by
  have hdate : ∀ d : Date, quoted d.text = "'" ++ d.text ++ "'" ∧
      date? d.text.toList = some (d, []) := fun d =>
    ⟨quoted_of_isPlain (isPlain_date d), by simpa using date?_text d []⟩
  have htime : ∀ t : TimeOfDay, quoted t.milliText = "'" ++ t.milliText ++ "'" ∧
      time? t.milliText.toList = some (t.truncated, []) ∧
        (t.second = 60 → ":60.".toList <:+: t.milliText.toList) := fun t =>
    ⟨quoted_of_isPlain (isPlain_time t), by simpa using time?_milliText t [], infix_leapSecond⟩
  refine ⟨fun bytes ty => ⟨bytes.flatMap hexByte, by simp [literal, hex], bytes?_hex bytes⟩,
    fun s => by simp only [literal, utf8_eq], fun d ty => ⟨d.text, hdate d⟩,
    fun t ty => ⟨t.milliText, htime t⟩, fun t => ?_⟩
  obtain ⟨hquoted, hread⟩ := hdate t.date
  obtain ⟨hquoted', hread', hleap⟩ := htime t.time
  have hboth := timestamp?_milliText t []
  rw [List.append_nil] at hboth
  refine ⟨t.date.text, t.time.milliText, hquoted, hquoted', hread, hread', hleap,
    fun ty hnotDate hnotTime => ⟨?_, hboth⟩⟩
  rw [literal_dateTime t hnotDate hnotTime]
  exact quoted_of_isPlain (isPlain_timestamp t)

/-- A leap second in a year of five digits, shortly before the next millisecond. -/
def leapSecond : Timestamp where
  date := ⟨12345, 6, 30, by decide⟩
  time := ⟨23, 59, 60, 42999999, by decide⟩

theorem literal_value_read_leapSecond :
    leapSecond.time.second = 60 ∧
      literal (.dateTime leapSecond) none = "'+12345-06-30 23:59:60.042'" ∧
      ∃ date time, ":60.".toList <:+: time.toList ∧
        literal (.dateTime leapSecond) none = "'" ++ (date ++ " " ++ time) ++ "'" ∧
        timestamp? (date ++ " " ++ time).toList =
          some (⟨leapSecond.date, ⟨23, 59, 60, 42000000, by decide⟩⟩, []) := by
  obtain ⟨date, time, -, -, -, -, hleap, hrest⟩ := literal_value_read.2.2.2.2 leapSecond
  obtain ⟨hliteral, hread⟩ := hrest none (by decide) (by decide)
  exact ⟨rfl, by decide +kernel, date, time, hleap rfl, hliteral, hread⟩

end Sql

end Transact
