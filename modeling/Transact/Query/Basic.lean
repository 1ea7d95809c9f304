import Transact.Source

/-!
# Queries

What a statement is compiled to, before it becomes text: queries with `TOP`, ranking windows and
derived tables. `QueryBody σ` is one level, with subqueries and derived tables of type `σ`; a
`Query` is a body whose subqueries are queries.
-/

set_option autoImplicit false

namespace Transact

/-! ## One level -/

/-- The ranking functions. -/
inductive Ranking where
  | rowNumber
  /-- equal rows have equal ranks, and ranks have no gaps -/
  | denseRank
deriving DecidableEq

/-- A sort key of a query. Without a direction the dialect sorts upwards. -/
structure Key (σ : Type) where
  expr : Expr σ
  direction : Option Direction

/-- A ranking over partitions, in an order. -/
structure Window (σ : Type) where
  ranking : Ranking
  partition : List (Expr σ)
  orders : List (Key σ)

/-- A column of a select list. -/
inductive Column (σ : Type) where
  | expr (e : Expr σ)
  /-- the rank of the row, under a name -/
  | ranked (w : Window σ) (name : String)

/-- What a query selects from. -/
inductive Rows (σ : Type) where
  /-- a source, with a hint on its first table -/
  | source (s : Source σ) (hint : Option String)
  /-- the rows of another query, under a name -/
  | derived (query : σ) (name : String)

/-- One level of a query. The select list comes in blocks: the columns that the user asked for are
one block, which keeps its place in the list even when it is empty. -/
structure QueryBody (σ : Type) where
  distinct : Bool := false
  top : Option (Expr σ) := none
  columns : List (List (Column σ)) := []
  rows : Option (Rows σ) := none
  /-- conditions that all have to hold -/
  filters : List (Expr σ) := []
  groups : List (Expr σ) := []
  having : Option (Expr σ) := none
  orders : List (Key σ) := []

/-! ## All levels -/

/-- A query: a body whose subqueries and derived tables are queries. -/
inductive Query where
  | of (body : QueryBody Query)

namespace Query

/-- The outermost level. -/
def body : Query → QueryBody Query
  | .of b => b

section Fold

variable {α : Type} (level : QueryBody α → α)

mutual

/-- Computes a value from the inside out: `level` gives the value of a body whose subqueries and
derived tables have been replaced by theirs. -/
def fold : Query → α
  | .of ⟨distinct, top, columns, rows, filters, groups, having, orders⟩ =>
    level
      ⟨distinct, foldOption top, foldBlocks columns, foldRows rows, foldList filters,
        foldList groups, foldOption having, foldKeys orders⟩

/-- The blocks of a select list with their subqueries folded. -/
def foldBlocks : List (List (Column Query)) → List (List (Column α))
  | [] => []
  | block :: blocks => foldColumns block :: foldBlocks blocks

/-- The columns with their subqueries folded. -/
def foldColumns : List (Column Query) → List (Column α)
  | [] => []
  | .expr e :: columns => .expr (foldExpr e) :: foldColumns columns
  | .ranked ⟨ranking, partition, orders⟩ name :: columns =>
    .ranked ⟨ranking, foldList partition, foldKeys orders⟩ name :: foldColumns columns

/-- The rows with their subqueries folded. -/
def foldRows : Option (Rows Query) → Option (Rows α)
  | none => none
  | some (.source s hint) => some (.source (foldSource s) hint)
  | some (.derived q name) => some (.derived (fold q) name)

/-- The sort keys with their subqueries folded. -/
def foldKeys : List (Key Query) → List (Key α)
  | [] => []
  | ⟨e, direction⟩ :: keys => ⟨foldExpr e, direction⟩ :: foldKeys keys

/-- The source with its subqueries folded. -/
def foldSource : Source Query → Source α
  | .table t => .table t
  | .join kind left right condition =>
    .join kind (foldSource left) (foldSource right) (foldOption condition)
  | .raw text => .raw text

/-- An expression that may be absent, with its subqueries folded. -/
def foldOption : Option (Expr Query) → Option (Expr α)
  | none => none
  | some e => some (foldExpr e)

/-- The expressions with their subqueries folded. -/
def foldList : List (Expr Query) → List (Expr α)
  | [] => []
  | e :: es => foldExpr e :: foldList es

/-- The expression with its subqueries folded. -/
def foldExpr : Expr Query → Expr α
  | .column c => .column c
  | .wildcard table => .wildcard table
  | .literal v => .literal v
  | .typed v ty => .typed v ty
  | .aggregate fn args d => .aggregate fn (foldList args) d
  | .call name args => .call name (foldList args)
  | .alias e name => .alias (foldExpr e) name
  | .distinct e => .distinct (foldExpr e)
  | .binary l op r => .binary (foldExpr l) op (foldExpr r)
  | .not e => .not (foldExpr e)
  | .isNull e n => .isNull (foldExpr e) n
  | .inList e list n => .inList (foldExpr e) (foldList list) n
  | .inSubquery e q n => .inSubquery (foldExpr e) (fold q) n
  | .grouping e => .grouping (foldExpr e)
  | .caseSensitive e => .caseSensitive (foldExpr e)
  | .raw s => .raw s

end

end Fold

end Query

/-! ## Updates -/

/-- What an update is compiled to. -/
structure UpdateQuery where
  top : Option (Expr Query)
  table : TableRef
  values : List (ColumnRef × Expr Query)
  /-- conditions that all have to hold -/
  filters : List (Expr Query)

/-- What a statement is compiled to. -/
inductive Command where
  | query (q : Query)
  | update (u : UpdateQuery)

end Transact
