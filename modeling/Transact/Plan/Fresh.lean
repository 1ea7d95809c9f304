import Transact.Expr.Basic
import Transact.Select
import Transact.Text.Basic
import Transact.Text.Lower
import Transact.Trace

/-!
# Fresh names

The compiler introduces relations and columns of its own. Their names avoid every name that the
statement uses, compared without regard to letter case.
-/

set_option autoImplicit false

namespace Transact

/-! ## One name after another -/

namespace Fresh

open Text

/-- The `k`-th candidate for a name: the base itself, then `base_1`, `base_2`, … The number is not
bounded here; a signed counter of 32 bits would have no candidate after `base_2147483647`. -/
def candidate (base : String) (k : Nat) : String :=
  if k = 0 then base else base ++ "_" ++ natural k

/-- The first candidate that is not among the taken names, which are in lower case. One candidate
more than there are taken names is enough to find it. -/
def pick (taken : List String) (base : String) : String :=
  let free (k : Nat) : Bool := !taken.contains (lower (candidate base k))
  candidate base (((List.range (taken.length + 1)).find? free).getD (taken.length + 1))

/-- Names for the bases in turn, each of which is taken for those after it. -/
def pickAll (taken : List String) : List String → List String
  | [] => []
  | base :: bases =>
    let name := pick taken base
    name :: pickAll (lower name :: taken) bases

end Fresh

/-! ## Names in use -/

/-- A letter or an underscore. -/
def isWordStart (c : Char) : Bool := c.isAlpha || c == '_'

/-- A letter, a digit or an underscore. -/
def isWordChar (c : Char) : Bool := c.isAlphanum || c == '_'

/-- The names in a text that is taken as it stands: what stands in brackets up to the first closing
one, and the words outside of brackets. The first argument bounds the steps; the length of the text
is enough. -/
def rawNamesWithin : Nat → List Char → List String
  | 0, _ => []
  | _, [] => []
  | n + 1, c :: cs =>
    if c = '[' then
      let inside := cs.takeWhile (· != ']')
      match inside, cs.dropWhile (· != ']') with
      | _ :: _, _ :: rest => String.ofList inside :: rawNamesWithin n rest
      | _, _ => rawNamesWithin n cs
    else if isWordStart c then
      String.ofList (c :: cs.takeWhile isWordChar) :: rawNamesWithin n (cs.dropWhile isWordChar)
    else rawNamesWithin n cs

/-- The names in a text that is taken as it stands. -/
def rawNames (text : String) : List String := rawNamesWithin text.length text.toList

namespace Expr

variable {σ : Type}

mutual

/-- The names that an expression uses: of columns and their tables, aliases, and all names in raw
text. Subqueries have names of their own. -/
def names : Expr σ → List String
  | .column c => c.name :: c.table.toList
  | .aggregate _ args _ => namesList args
  | .call _ args => namesList args
  | .alias e name => name :: names e
  | .distinct e => names e
  | .binary l _ r => names l ++ names r
  | .not e => names e
  | .isNull e _ => names e
  | .inList e list _ => names e ++ namesList list
  | .inSubquery e _ _ => names e
  | .grouping e => names e
  | .caseSensitive e => names e
  | .raw s => rawNames s
  | .wildcard _ => []
  | .literal _ => []
  | .typed _ _ => []

/-- The names that the expressions use. -/
def namesList : List (Expr σ) → List String
  | [] => []
  | e :: es => names e ++ namesList es

end

end Expr

/-- The names that a source uses: of its tables, their aliases, in its conditions and in raw
text. -/
def Source.names {σ : Type} : Source σ → List String
  | .table t => t.name :: t.aliasName.toList
  | .join _ left right condition =>
    names left ++ names right ++ Expr.namesList condition.toList
  | .raw text => rawNames text

/-- The names that a core uses. -/
def Core.names {σ : Type} (c : Core σ) : List String :=
  Expr.namesList c.projections ++ Expr.namesList c.wheres ++ Expr.namesList c.groups ++
    Expr.namesList c.having.toList ++ c.source.toList.flatMap Source.names

/-- The names that a select uses in its first core and its order. -/
def SelectBody.names {σ : Type} (s : SelectBody σ) : List String :=
  s.cores.head?.toList.flatMap Core.names ++ s.orders.flatMap (·.expr.names)

/-! ## The names of the compiler -/

/-- The relations and columns that the compiler introduces. -/
structure SyntheticNames where
  /-- the number of a row -/
  rowNumber : String
  /-- the numbered rows -/
  numbered : String
  /-- the rank of a row in the requested order -/
  order : String
  /-- the number of a row among its duplicates -/
  duplicate : String
  /-- the number of a row of the ranked result -/
  offset : String
  /-- the ranked result that an offset is taken from -/
  offsetRows : String
  /-- the ranked rows -/
  ranked : String
  /-- a projected constant `1` -/
  one : String
  /-- the column that is counted -/
  count : String
deriving DecidableEq

namespace SyntheticNames

/-- The names that are taken when the statement does not use them. -/
def preferred : SyntheticNames where
  rowNumber := "__rn"
  numbered := "__rnt"
  order := "__order"
  duplicate := "__joined_row_num"
  offset := "__offset"
  offsetRows := "__osq"
  ranked := "__sq"
  one := "__wrp"
  count := "count"

/-- The names in the order in which they are chosen. -/
def toList (n : SyntheticNames) : List String :=
  [n.rowNumber, n.numbered, n.order, n.duplicate, n.offset, n.offsetRows, n.ranked, n.one, n.count]

/-- The names in a list of nine. -/
def ofList? : List String → Option SyntheticNames
  | [a, b, c, d, e, f, g, h, i] => some ⟨a, b, c, d, e, f, g, h, i⟩
  | _ => none

/-- Names that avoid those in use. -/
def avoiding (used : List String) : SyntheticNames :=
  (ofList? (Fresh.pickAll (used.map Text.lower) preferred.toList)).getD preferred

/-- A message for each name that had to give way. -/
def renamings (n : SyntheticNames) : List Message :=
  (preferred.toList.zip n.toList).filterMap fun (base, name) =>
    if base = name then none else some (.renamed base name)

end SyntheticNames

end Transact
