import Transact.Plan.Scope

/-!
# Distinct rows in a foreign order

Distinct rows can be sorted only by what they project. When the order is by something else, each
group of duplicates is reduced to its first row in that order, and the rank of that row is carried
out as the order.
-/

set_option autoImplicit false

namespace Transact

variable {σ : Type}

/-- The expression by which duplicates of a projection are told: all columns of the base table are
told by its primary key when it is known. -/
def Core.identity (c : Core σ) (p : Expr σ) : Expr σ :=
  match p.unaliased.wildcardTable?, c.baseTable? with
  | some table, some base =>
    if table = base.qualifier then (base.keyColumn?.map Expr.column).getD p.unaliased
    else p.unaliased
  | _, _ => p.unaliased

/-- How the outer query names a projection of the ranked rows. -/
def Expr.outerName : Expr σ → Expr σ
  | .alias _ name => .named name
  | .column c => .named c.name
  | .wildcard _ => .star
  | e => e

/-- The query of a select of distinct rows in a foreign order. -/
def Scope.distinctOrder (sc : Scope σ) (s : SelectBody σ) (c : Core σ) : Trace Query := do
  let names := sc.names
  let projections := c.projections.map Expr.unmarked
  let columns ← sc.exprs projections
  let rank ← sc.window .denseRank [] s.orders
  let duplicate ← sc.window .rowNumber (projections.map c.identity) s.orders
  let frame ← sc.frame s c c.groups
  let outer ← sc.exprs (projections.map Expr.outerName)
  let top ← sc.expr? s.limit
  let offset ← sc.expr? s.offset
  let ranked : Query :=
    .of { frame with
      columns :=
        [columns.map .expr, [.ranked rank names.order, .ranked duplicate names.duplicate]] }
  let first : Expr Query := .equals (.named names.duplicate) (.int 1)
  let rows : Option (Rows Query) := some (.derived ranked names.ranked)
  match offset with
  | none =>
    pure
      (.of
        { distinct := true
          top := top
          columns := [outer.map .expr ++ [.expr (.named names.order)]]
          rows := rows
          filters := [first]
          orders := [⟨.named names.order, none⟩] })
  | some offset =>
    let window : Window Query := ⟨.rowNumber, [], [⟨.named names.order, none⟩]⟩
    let numbered : Query :=
      .of
        { columns := [outer.map .expr ++ [.ranked window names.offset]]
          rows := rows
          filters := [first] }
    pure
      (.of
        { distinct := true
          top := top
          columns := [[.expr .star]]
          rows := some (.derived numbered names.offsetRows)
          filters := [.binary (.named names.offset) .gt offset]
          orders := [⟨.named names.offset, none⟩] })

end Transact
