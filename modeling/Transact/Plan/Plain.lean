import Transact.Plan.Scope
import Transact.Plan.Shape

/-!
# Plain selects

A select without offset becomes a single query.
-/

set_option autoImplicit false

namespace Transact

variable {σ : Type}

/-- What a query projects, groups and sorts by. -/
structure Arrangement (σ : Type) where
  projections : List (Expr σ)
  groups : List (Expr σ)
  orders : List (SortKey σ)

/-- The key by which grouped values are sorted: the extreme of the sort expression, the greatest
when sorting downwards and the least otherwise. -/
def SortKey.extreme (k : SortKey σ) : SortKey σ :=
  let fn : AggregateFn := if k.isDescending then .max else .min
  ⟨.aggregateOf fn k.expr.bare.unaliased, k.direction⟩

/-- The arrangement of a plain query. A limited single distinct projection is grouped by its
value. -/
def Shape.plainArrangement (sh : Shape) (s : SelectBody σ) (c : Core σ) : Arrangement σ :=
  if sh.groupsToLimit then
    let projections := c.projections.map Expr.bare
    ⟨projections, projections.map Expr.unaliased, s.orders.map SortKey.extreme⟩
  else if sh.limitsWholeTable then ⟨c.projections.map Expr.bare, c.groups, s.orders⟩
  else ⟨c.projections, c.groups, s.orders⟩

/-- The query of a plain select. A mark on the first projection becomes the quantifier of the query,
so that it stands before the limit. -/
def Scope.plain (sc : Scope σ) (sh : Shape) (s : SelectBody σ) (c : Core σ) : Trace Query := do
  if sh.groupsToLimit then Trace.say .groupedLimit
  let arranged := sh.plainArrangement s c
  let marked := arranged.projections.head?.any Expr.isMarked
  let projections :=
    if marked then arranged.projections.modifyHead Expr.unmarked else arranged.projections
  let top ← sc.expr? s.limit
  let columns ← sc.projections projections
  let frame ← sc.frame s c arranged.groups
  let orders ← sc.keys arranged.orders
  pure
    (.of { frame with
      distinct := c.distinct || marked
      top := top
      columns := [columns]
      orders := orders })

end Transact
