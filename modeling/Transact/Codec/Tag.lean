import Transact.Select

/-!
# Tags

The names of enumerated values in JSON.
-/

set_option autoImplicit false

namespace Transact

/-- The tag of a column type. -/
def ColumnType.tag : ColumnType → String
  | .string => "String"
  | .narrowString => "NonUnicodeString"
  | .integer => "Integer"
  | .float => "Float"
  | .boolean => "Boolean"
  | .binary => "Binary"
  | .date => "Date"
  | .dateTime => "DateTime"
  | .time => "Time"

/-- The tag of an aggregate function. -/
def AggregateFn.tag : AggregateFn → String
  | .count => "Count"
  | .sum => "Sum"
  | .min => "Min"
  | .max => "Max"
  | .avg => "Avg"

/-- The tag of an operator. -/
def BinaryOp.tag : BinaryOp → String
  | .eq => "Eq"
  | .notEq => "NotEq"
  | .lt => "Lt"
  | .lte => "Lte"
  | .gt => "Gt"
  | .gte => "Gte"
  | .and => "And"
  | .or => "Or"
  | .like => "Like"
  | .notLike => "NotLike"
  | .add => "Add"
  | .sub => "Sub"
  | .mul => "Mul"
  | .div => "Div"

/-- The tag of a direction. -/
def Direction.tag : Direction → String
  | .asc => "Asc"
  | .desc => "Desc"

/-- The tag of a kind of join. -/
def JoinKind.tag : JoinKind → String
  | .inner => "Inner"
  | .leftOuter => "LeftOuter"
  | .rightOuter => "RightOuter"
  | .fullOuter => "FullOuter"
  | .cross => "Cross"
  | .fragment => "Fragment"

end Transact
