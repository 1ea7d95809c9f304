import Transact.Calendar.Basic
import Transact.Text.Basic

/-!
# Writing dates and times

Two forms of a time: the exact one has as many groups of three fraction digits as it needs, the one
in milliseconds always has three digits and drops the rest.
-/

set_option autoImplicit false

namespace Transact.Calendar

open Transact.Text

/-- A year has at least four digits, and a sign when it is not between 0 and 9999. -/
def yearText (y : Int) : String :=
  let body := padded 4 y.natAbs
  if y < 0 then "-" ++ body else if 9999 < y then "+" ++ body else body

/-- `2024-02-29` -/
def Date.text (d : Date) : String :=
  yearText d.year ++ "-" ++ padded 2 d.month ++ "-" ++ padded 2 d.day

/-- `13:05:09` -/
def TimeOfDay.clock (t : TimeOfDay) : String :=
  padded 2 t.hour ++ ":" ++ padded 2 t.minute ++ ":" ++ padded 2 t.second

/-- The fraction in the fewest of 0, 3, 6 and 9 digits that are exact. -/
def fractionText (ns : Nat) : String :=
  if ns = 0 then ""
  else if ns % 1000000 = 0 then "." ++ padded 3 (ns / 1000000)
  else if ns % 1000 = 0 then "." ++ padded 6 (ns / 1000)
  else "." ++ padded 9 ns

/-- `13:05:09.042`, with the exact fraction. -/
def TimeOfDay.exactText (t : TimeOfDay) : String := t.clock ++ fractionText t.nanosecond

/-- `13:05:09.042`, always with three digits of fraction. -/
def TimeOfDay.milliText (t : TimeOfDay) : String :=
  t.clock ++ "." ++ padded 3 (t.nanosecond / 1000000)

/-- `2024-02-29T13:05:09.042`, with the exact fraction. -/
def Timestamp.exactText (t : Timestamp) : String := t.date.text ++ "T" ++ t.time.exactText

/-- `2024-02-29 13:05:09.042`, always with three digits of fraction. -/
def Timestamp.milliText (t : Timestamp) : String := t.date.text ++ " " ++ t.time.milliText

end Transact.Calendar
