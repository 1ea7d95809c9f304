import Transact.Calendar.Basic
import Transact.Diagnostic
import Transact.Number.Binary64

/-!
# Literals

The constants of a statement, and the types of the columns that they may be bound to.
-/

set_option autoImplicit false

namespace Transact

open Number Calendar

/-- A constant. -/
inductive Literal where
  | null
  | boolean (b : Bool)
  | integer (i : Int64)
  | float (x : Binary64)
  | string (s : String)
  | date (d : Date)
  | dateTime (t : Timestamp)
  | time (t : TimeOfDay)
  | binary (bytes : List UInt8)
deriving DecidableEq

/-- Equality of constants, where doubles are compared by value: the two zeros are one. -/
def Literal.same : Literal → Literal → Bool
  | .float x, .float y => x.sameValue y
  | v, w => v == w

/-- The row count that stands for "no limit" where a limit has to be written. -/
def unboundedLimit : Int64 := 9223372036854775807

/-- The type of the column that a constant is bound to. -/
inductive ColumnType where
  | string
  /-- a column of single-byte text -/
  | narrowString
  | integer
  | float
  | boolean
  | binary
  | date
  | dateTime
  | time
deriving DecidableEq

namespace ColumnType

/-- All column types, in the order of their declaration. -/
def all : List ColumnType :=
  [.string, .narrowString, .integer, .float, .boolean, .binary, .date, .dateTime, .time]

/-- The name of a column type in a configuration. -/
def keyword : ColumnType → String
  | .string => "string"
  | .narrowString => "non_unicode_string"
  | .integer => "integer"
  | .float => "float"
  | .boolean => "boolean"
  | .binary => "binary"
  | .date => "date"
  | .dateTime => "date_time"
  | .time => "time"

/-- The column type of this name, in exactly this case. -/
def parse (text : String) : Except Diagnostic ColumnType :=
  match all.find? (·.keyword == text) with
  | some ty => .ok ty
  | none => .error .unmatched

end ColumnType

end Transact
