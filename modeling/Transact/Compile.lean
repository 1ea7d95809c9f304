import Transact.Plan.Correlate
import Transact.Plan.Count
import Transact.Plan.DistinctOrder
import Transact.Plan.Pagination
import Transact.Plan.Plain
import Transact.Query.Text
import Transact.Statement

/-!
# Compilation

A statement is compiled to a query, and the query is written as text. A select is compiled level by
level, each one over subqueries that are compiled already.
-/

set_option autoImplicit false

namespace Transact

/-! ## One level -/

section

variable {σ : Type}

/-- The elements whose labels do not occur before them. -/
def firstOfEach {α : Type} : List String → List (String × α) → List α
  | _, [] => []
  | seen, (label, a) :: rest =>
    if seen.contains label then firstOfEach seen rest
    else a :: firstOfEach (label :: seen) rest

/-- The sort keys, each with the text of its expression. -/
def Scope.labelled (sc : Scope σ) : List (SortKey σ) → Trace (List (String × SortKey σ))
  | [] => pure []
  | k :: ks => do
    let e ← sc.expr k.expr
    let rest ← labelled sc ks
    pure ((e.querySql sc.options.collation, k) :: rest)

/-- The sort keys without those whose expression has the text of an earlier one, whatever their
direction. -/
def Scope.distinctKeys (sc : Scope σ) (keys : List (SortKey σ)) : Trace (List (SortKey σ)) := do
  let labelled ← sc.labelled keys
  pure (firstOfEach [] labelled)

/-- The query of a select with this first core. -/
def Scope.core [BEq σ] (sc : Scope σ) (s : SelectBody σ) (c : Core σ) : Trace Query := do
  let shape := Shape.of s c
  if shape.foreignOrder then Trace.say .foreignOrder
  Trace.say (.strategy shape.strategy)
  match shape.strategy with
  | .count => sc.count s c
  | .distinctOrder => sc.distinctOrder s c
  | .paginated => do
    let c ← c.correlated
    sc.paginated shape s c
  | .plain => do
    let c ← c.correlated
    sc.plain shape s c

/-- The scope in which a level is compiled. The names that are introduced are not in use there. -/
def SelectBody.scope (options : Options) (subquery : σ → Trace Query) (s : SelectBody σ) :
    Scope σ :=
  ⟨options, .avoiding s.names, subquery⟩

/-- The query of one level of a select, given the queries of its subqueries. -/
def SelectBody.compile [BEq σ] (options : Options) (subquery : σ → Trace Query)
    (s : SelectBody σ) : Trace Query := do
  let sc := s.scope options subquery
  Trace.sayAll sc.names.renamings
  let orders ← sc.distinctKeys s.orders
  match s.cores with
  | [] => Trace.fail .noCore
  | c :: _ => sc.core { s with orders := orders } c

end

/-! ## All levels -/

/-- A select together with its query. -/
structure Compiled where
  source : Select
  query : Trace Query

instance : BEq Compiled := ⟨fun a b => a.source == b.source⟩

/-- The level above compiled subqueries. -/
def Compiled.level (options : Options) (s : SelectBody Compiled) : Compiled where
  source := .of (s.map Compiled.source)
  query := s.compile options Compiled.query

/-- The query of a select. -/
def Select.compile (options : Options) (s : Select) : Trace Query :=
  (s.fold (Compiled.level options)).query

/-! ## Updates -/

namespace Update

/-- An ordered update without a limit gets the one that stands for none, so that its order can be
carried by a limited select. -/
def guarded (u : Update) : Update :=
  if !u.orders.isEmpty && u.limit.isNone then
    { u with limit := some (.int unboundedLimit) }
  else u

/-- Only some of the rows are updated, by their order or their number. -/
def isRestricted (u : Update) : Bool := !u.orders.isEmpty || u.limit.isSome

/-- The column that tells rows apart. -/
def keyColumn? (u : Update) : Option ColumnRef := u.key.or u.table.keyColumn?

/-- The keys of the rows to update. -/
def keySelect (u : Update) (key : ColumnRef) : Select :=
  .of
    { cores :=
        [{ projections := [.column key], source := some (.table u.table), wheres := u.wheres }]
      orders := u.orders
      limit := u.limit }

/-- The limit, unless it stands for none. -/
def boundedLimit? (u : Update) : Option (Expr Select) :=
  u.limit.filter fun limit => !(limit == .int unboundedLimit)

/-- The conditions on the rows. Restricted rows are chosen by their key. -/
def conditions (u : Update) : List (Expr Select) :=
  match u.keyColumn? with
  | some key =>
    if u.isRestricted then [.inSubquery (.column key) (u.keySelect key) false] else u.wheres
  | none => u.wheres

/-- The values with their subqueries compiled. -/
def compileValues (options : Options) :
    List (ColumnRef × Expr Select) → Trace (List (ColumnRef × Expr Query))
  | [] => pure []
  | (column, e) :: rest => do
    let e ← e.mapM (Select.compile options)
    let rest ← compileValues options rest
    pure ((column, e) :: rest)

/-- A limit with its subqueries compiled. -/
def compileLimit (options : Options) : Option (Expr Select) → Trace (Option (Expr Query))
  | none => pure none
  | some e => do
    let e ← e.mapM (Select.compile options)
    pure (some e)

/-- The update with its subqueries compiled. Without a key the order is dropped and the limit is
written into the update itself. -/
def compile (options : Options) (u : Update) : Trace UpdateQuery := do
  let u := u.guarded
  let unkeyed := u.isRestricted && u.keyColumn?.isNone
  if unkeyed then Trace.say (.unkeyedUpdate u.table.name)
  let top ← compileLimit options (if unkeyed then u.boundedLimit? else none)
  let values ← compileValues options u.values
  let filters ← Expr.mapListM (Select.compile options) u.conditions
  pure ⟨top, u.table, values, filters⟩

end Update

/-! ## Statements -/

/-- What a statement is compiled to. -/
def Statement.compile (options : Options) : Statement → Trace Command
  | .select s => do
    let q ← s.compile options
    pure (.query q)
  | .update u => do
    let u ← u.compile options
    pure (.update u)

/-- The SQL text of a statement, with everything that was said on the way to it. -/
def Statement.trace (options : Options) (s : Statement) : Trace String := do
  let command ← s.compile options
  pure (command.sql options.collation)

/-- The SQL text of a statement before formatting. `Options.format` plays no part in it: a formatter
lays this text out afterwards. -/
def Statement.sql (options : Options) (s : Statement) : Except CompileError String :=
  (s.trace options).result

end Transact
