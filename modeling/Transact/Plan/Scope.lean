import Transact.Options
import Transact.Plan.Fresh
import Transact.Query.Basic

/-!
# Scopes

What the compilation of one select refers to: the options, the names that it introduces, and the
queries of its subqueries. The expressions of the select are resolved in its scope, which compiles
their subqueries.
-/

set_option autoImplicit false

namespace Transact

/-- The surroundings in which a select over subqueries of type `σ` is compiled. -/
structure Scope (σ : Type) where
  options : Options
  names : SyntheticNames
  /-- the query of a subquery -/
  subquery : σ → Trace Query

namespace Scope

variable {σ : Type} (sc : Scope σ)

/-- An expression with its subqueries compiled. -/
def expr (e : Expr σ) : Trace (Expr Query) := e.mapM sc.subquery

/-- Expressions with their subqueries compiled. -/
def exprs (es : List (Expr σ)) : Trace (List (Expr Query)) := Expr.mapListM sc.subquery es

/-- An expression that may be absent, with its subqueries compiled. -/
def expr? : Option (Expr σ) → Trace (Option (Expr Query))
  | none => pure none
  | some e => do
    let e ← sc.expr e
    pure (some e)

/-- Sort keys with their subqueries compiled. -/
def keys : List (SortKey σ) → Trace (List (Key Query))
  | [] => pure []
  | k :: ks => do
    let e ← sc.expr k.expr
    let rest ← keys ks
    pure (⟨e, some k.direction⟩ :: rest)

/-- A ranking with its subqueries compiled. -/
def window (ranking : Ranking) (partition : List (Expr σ)) (orders : List (SortKey σ)) :
    Trace (Window Query) := do
  let partition ← sc.exprs partition
  let orders ← sc.keys orders
  pure ⟨ranking, partition, orders⟩

/-- The hint that a lock stands for. -/
def hint (lock : Lock) : String :=
  match lock with
  | .default => sc.options.lockHint
  | .hint text => text

/-- The rows that a core draws on. -/
def rows (source : Option (Source σ)) (lock : Option Lock) : Trace (Option (Rows Query)) :=
  match source with
  | none => pure none
  | some source => do
    let source ← source.mapM sc.subquery
    pure (some (.source source (lock.map sc.hint)))

/-- The part of a query from its rows to its groups, which every strategy has in common: it has no
columns, no order and no limit yet. -/
def frame (s : SelectBody σ) (c : Core σ) (groups : List (Expr σ)) :
    Trace (QueryBody Query) := do
  let rows ← sc.rows c.source s.lock
  let filters ← sc.exprs c.wheres
  let groups ← sc.exprs groups
  let having ← sc.expr? c.having
  pure { rows, filters, groups, having }

/-- Projections as columns. A constant `1` gets an alias, so that a query around this one can refer
to it. -/
def projections (ps : List (Expr σ)) : Trace (List (Column Query)) := do
  let ps ← sc.exprs (ps.map fun p => if p.isLiteralOne then .alias p sc.names.one else p)
  pure (ps.map .expr)

end Scope

end Transact
