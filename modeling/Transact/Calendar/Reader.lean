import Transact.Calendar.Basic
import Transact.Text.Basic
import Transact.Text.Blank

/-!
# Reading dates and times

A date is `year-month-day`, a time `hour:minute` with optional `:second` and fraction, a timestamp a
date, `T` and a time with seconds. The text is scanned from left to right and the first fault is
reported. Blanks may stand before every number and every separator, and at the end. A field that is
too large for its place is found out when it is read, a day that its month lacks at the end.
-/

set_option autoImplicit false

namespace Transact.Calendar

open Transact.Text

/-- Why a text is no date or time. -/
inductive Fault where
  | tooShort
  | unexpected
  | outOfRange
  | trailing
deriving DecidableEq

/-- The wording of a fault. -/
def Fault.message : Fault → String
  | .tooShort => "premature end of input"
  | .unexpected => "input contains invalid characters"
  | .outOfRange => "input is out of range"
  | .trailing => "trailing input"

/-! ## Parts

A part is read at the front of a text; the result is its value and the rest of the text.
-/

/-- At least one digit, and no more than `width` of them when there is a width. -/
def numeral (width : Option Nat) (cs : List Char) : Except Fault (Nat × List Char) :=
  let run := cs.takeWhile isDigit
  let taken :=
    match width with
    | some w => run.take w
    | none => run
  if cs.isEmpty then .error .tooShort
  else if taken.isEmpty then .error .unexpected
  else .ok (digitsValue taken, cs.drop taken.length)

/-- A number of one or two digits between two bounds. -/
def field (least greatest : Nat) (cs : List Char) : Except Fault (Nat × List Char) := do
  let (n, rest) ← numeral (some 2) (trimStart cs)
  if least ≤ n && n ≤ greatest then .ok (n, rest) else .error .outOfRange

/-- A separator. -/
def mark (c : Char) (cs : List Char) : Except Fault (List Char) :=
  match trimStart cs with
  | [] => .error .tooShort
  | d :: rest => if d = c then .ok rest else .error .unexpected

/-- Nothing but blanks. -/
def finish (cs : List Char) : Except Fault Unit :=
  if (trimStart cs).isEmpty then .ok () else .error .trailing

/-- A year: up to four digits, or a sign and any number of digits. It fits in 32 bits. -/
def year (cs : List Char) : Except Fault (Int × List Char) := do
  let (y, rest) : Int × List Char ←
    match trimStart cs with
    | '-' :: after => do
      let (n, rest) ← numeral none after
      pure (-(n : Int), rest)
    | '+' :: after => do
      let (n, rest) ← numeral none after
      pure ((n : Int), rest)
    | start => do
      let (n, rest) ← numeral (some 4) start
      pure ((n : Int), rest)
  if -2147483648 ≤ y ∧ y ≤ 2147483647 then .ok (y, rest) else .error .outOfRange

/-- Year, month and day, which need not name a day. -/
def yearMonthDay (cs : List Char) : Except Fault ((Int × Nat × Nat) × List Char) := do
  let (y, cs) ← year cs
  let cs ← mark '-' cs
  let (m, cs) ← field 1 12 cs
  let cs ← mark '-' cs
  let (d, cs) ← field 1 31 cs
  .ok ((y, m, d), cs)

/-- The fraction of a second in nanoseconds, right after the seconds. Digits after the ninth are
dropped, and without a point the fraction is zero. -/
def fraction : List Char → Except Fault (Nat × List Char)
  | '.' :: cs =>
    let run := cs.takeWhile isDigit
    if cs.isEmpty then .error .tooShort
    else if run.isEmpty then .error .unexpected
    else .ok (digitsValue ((run.take 9).rightpad 9 '0'), cs.drop run.length)
  | cs => .ok (0, cs)

/-- The separator, the seconds and their fraction. -/
def seconds (cs : List Char) : Except Fault ((Nat × Nat) × List Char) := do
  let cs ← mark ':' cs
  let (s, cs) ← field 0 60 cs
  let (f, cs) ← fraction cs
  .ok ((s, f), cs)

/-- Hour and minute. -/
def hourMinute (cs : List Char) : Except Fault ((Nat × Nat) × List Char) := do
  let (h, cs) ← field 0 23 cs
  let cs ← mark ':' cs
  let (m, cs) ← field 0 59 cs
  .ok ((h, m), cs)

/-! ## Whole texts -/

/-- The value, when the parts that were read have one. -/
def inRange {α : Type} : Option α → Except Fault α
  | some a => .ok a
  | none => .error .outOfRange

/-- The date that the text denotes. -/
def Date.read (s : String) : Except Fault Date := do
  let ((y, m, d), rest) ← yearMonthDay s.toList
  finish rest
  inRange (Date.of? y m d)

/-- The time that the text denotes. Seconds that cannot be read are taken as not given, so that
their text is left over. -/
def TimeOfDay.read (s : String) : Except Fault TimeOfDay := do
  let ((h, m), rest) ← hourMinute s.toList
  match seconds rest with
  | .ok ((sec, ns), rest) => do
    finish rest
    inRange (TimeOfDay.of? h m sec ns)
  | .error _ => do
    finish rest
    inRange (TimeOfDay.of? h m 0 0)

/-- The timestamp that the text denotes. -/
def Timestamp.read (s : String) : Except Fault Timestamp := do
  let ((y, m, d), rest) ← yearMonthDay s.toList
  let rest ← mark 'T' rest
  let ((h, mi), rest) ← hourMinute rest
  let ((sec, ns), rest) ← seconds rest
  finish rest
  let date ← inRange (Date.of? y m d)
  let time ← inRange (TimeOfDay.of? h mi sec ns)
  .ok ⟨date, time⟩

end Transact.Calendar
