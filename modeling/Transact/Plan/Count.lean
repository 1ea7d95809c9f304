import Transact.Number.Clamp
import Transact.Plan.Pagination

/-!
# Counts of limited rows

A count of the rows of a limited select numbers the rows up to limit plus offset in a derived table
and counts those that are past the offset.
-/

set_option autoImplicit false

namespace Transact

variable {σ : Type}

/-- The sum of two row counts; integers are added, and stay in their range. -/
def Expr.plus : Expr σ → Expr σ → Expr σ
  | .literal (.integer a), .literal (.integer b) => .int (Number.saturatingAdd a b)
  | a, b => .binary a .add b

/-- How many rows are numbered. -/
def SelectBody.countLimit? (s : SelectBody σ) : Option (Expr σ) :=
  match s.limit, s.offset with
  | some limit, some offset => some (limit.plus offset)
  | limit, _ => limit

/-- The query of a count of limited rows. -/
def Scope.count (sc : Scope σ) (s : SelectBody σ) (c : Core σ) : Trace Query := do
  let keys ← s.rowKeys c
  let top ← sc.expr? s.countLimit?
  let window ← sc.window .rowNumber [] keys
  let frame ← sc.frame s c c.groups
  let orders ← sc.keys s.orders
  let offset ← sc.expr? s.offset
  let numbered : Query :=
    .of { frame with
      top := top
      columns := [[.ranked window sc.names.rowNumber, .expr (.alias (.int 1) sc.names.count)]]
      orders := orders }
  pure
    (.of
      { columns := [[.expr (.alias (.countOf [.named sc.names.count]) "count_id")]]
        rows := some (.derived numbered sc.names.numbered)
        filters := sc.names.pastOffset offset })

end Transact
