import Transact.Query.Basic
import Transact.Sql.Literal
import Transact.Sql.Name

/-!
# The text of queries

The SQL text of a query, level by level: the text of a level whose subqueries are texts already.
-/

set_option autoImplicit false

namespace Transact

open Sql Text

/-! ## Expressions -/

/-- The text of a column. -/
def ColumnRef.sql (c : ColumnRef) : String :=
  match c.table with
  | some table => dottedName table ++ "." ++ Sql.name c.name
  | none => Sql.name c.name

namespace Expr

/-- `NOT ` where a test is negated. -/
def negation (negated : Bool) : String := if negated then "NOT " else ""

mutual

/-- The text of an expression whose subqueries are texts. Operands are not parenthesised: a tree
says with a grouping where parentheses stand. -/
def sql (collation : String) : Expr String → String
  | .column c => c.sql
  | .wildcard none => "*"
  | .wildcard (some table) => dottedName table ++ ".*"
  | .literal v => Sql.literal v none
  | .typed v ty => Sql.literal v (some ty)
  | .aggregate fn args d =>
    let list := if args.isEmpty then "*" else join ", " (sqlList collation args)
    fn.keyword ++ "(" ++ (if d then "DISTINCT " else "") ++ list ++ ")"
  | .call name args => name ++ "(" ++ join ", " (sqlList collation args) ++ ")"
  | .alias e name => sql collation e ++ " AS " ++ Sql.name name
  | .distinct e => "DISTINCT " ++ sql collation e
  | .binary l op r => sql collation l ++ " " ++ op.keyword ++ " " ++ sql collation r
  | .not e => "NOT (" ++ sql collation e ++ ")"
  | .isNull e n => sql collation e ++ " IS " ++ negation n ++ "NULL"
  | .inList e list n =>
    sql collation e ++ " " ++ negation n ++ "IN (" ++ join ", " (sqlList collation list) ++ ")"
  | .inSubquery e q n => sql collation e ++ " " ++ negation n ++ "IN (" ++ q ++ ")"
  | .grouping e => "(" ++ sql collation e ++ ")"
  | .caseSensitive e => sql collation e ++ " COLLATE " ++ collation
  | .raw s => s

/-- The texts of the expressions. -/
def sqlList (collation : String) : List (Expr String) → List String
  | [] => []
  | e :: es => sql collation e :: sqlList collation es

end

end Expr

/-! ## Sources -/

/-- The text of a table. -/
def TableRef.sql (t : TableRef) : String :=
  let full := join "." ((t.schema.toList ++ [t.name]).map Sql.name)
  match t.aliasName with
  | some name => full ++ " AS " ++ Sql.name name
  | none => full

/-- The keyword of a join. A fragment brings its own. -/
def JoinKind.keyword : JoinKind → String
  | .inner => "INNER JOIN"
  | .leftOuter => "LEFT OUTER JOIN"
  | .rightOuter => "RIGHT OUTER JOIN"
  | .fullOuter => "FULL OUTER JOIN"
  | .cross => "CROSS JOIN"
  | .fragment => ""

namespace Source

/-- A text, with the hint after it if there is one. -/
def hinted (text : String) (hint : Option String) : String :=
  match hint with
  | some hint => text ++ " " ++ hint
  | none => text

/-- The text of a source, with the hint after its first table. A join on the right of another is
parenthesised. -/
def sql (collation : String) : Source String → Option String → String
  | .table t, hint => hinted t.sql hint
  | .raw text, hint => hinted (Text.trim text) hint
  | .join kind left right condition, hint =>
    let leftText := sql collation left hint
    let inner := sql collation right none
    let rightText := if right.isJoin then "(" ++ inner ++ ")" else inner
    match kind, condition with
    | .fragment, _ => leftText ++ " " ++ rightText
    | .cross, _ => leftText ++ " " ++ kind.keyword ++ " " ++ rightText
    | _, none => leftText ++ " " ++ kind.keyword ++ " " ++ rightText
    | _, some condition =>
      leftText ++ " " ++ kind.keyword ++ " " ++ rightText ++ " ON " ++
        condition.sql collation

end Source

/-! ## Levels -/

/-- The text of a sort key. -/
def Key.sql (collation : String) (k : Key String) : String :=
  k.expr.sql collation ++ k.direction.elim "" fun d => " " ++ d.keyword

/-- The name of a ranking function. -/
def Ranking.keyword : Ranking → String
  | .rowNumber => "ROW_NUMBER"
  | .denseRank => "DENSE_RANK"

/-- A clause of a list, unless the list is empty. -/
def clause (keyword sep : String) (items : List String) : List String :=
  if items.isEmpty then [] else [keyword ++ " " ++ join sep items]

/-- The text of a window. -/
def Window.sql (collation : String) (w : Window String) : String :=
  let parts :=
    clause "PARTITION BY" ", " (Expr.sqlList collation w.partition) ++
      clause "ORDER BY" ", " (w.orders.map (Key.sql collation))
  w.ranking.keyword ++ "() OVER (" ++ join " " parts ++ ")"

/-- The text of a column. -/
def Column.sql (collation : String) : Column String → String
  | .expr e => e.sql collation
  | .ranked w name => w.sql collation ++ " AS " ++ Sql.name name

/-- The text of what a query selects from. -/
def Rows.sql (collation : String) : Rows String → String
  | .source s hint => s.sql collation hint
  | .derived q name => "(" ++ q ++ ") AS " ++ Sql.name name

/-- `TOP (n)` -/
def topClause (collation : String) (top : Option (Expr String)) : List String :=
  top.toList.map fun n => "TOP (" ++ n.sql collation ++ ")"

/-- The text of a level. -/
def QueryBody.sql (collation : String) (q : QueryBody String) : String :=
  let blocks := q.columns.map fun block => join ", " (block.map (Column.sql collation))
  join " "
    (["SELECT"] ++ (if q.distinct then ["DISTINCT"] else []) ++ topClause collation q.top ++
      [join ", " blocks] ++
      (q.rows.toList.map fun rows => "FROM " ++ rows.sql collation) ++
      clause "WHERE" " AND " (Expr.sqlList collation q.filters) ++
      clause "GROUP BY" ", " (Expr.sqlList collation q.groups) ++
      (q.having.toList.map fun e => "HAVING " ++ e.sql collation) ++
      clause "ORDER BY" ", " (q.orders.map (Key.sql collation)))

/-- The text of a query. -/
def Query.sql (collation : String) (q : Query) : String := q.fold (QueryBody.sql collation)

/-- The text of an expression of a query. -/
def Expr.querySql (collation : String) (e : Expr Query) : String :=
  (e.map (Query.sql collation)).sql collation

/-- The text of an update. -/
def UpdateQuery.sql (collation : String) (u : UpdateQuery) : String :=
  let values := u.values.map fun (c, e) => c.sql ++ " = " ++ e.querySql collation
  join " "
    (["UPDATE"] ++ topClause collation (u.top.map (·.map (Query.sql collation))) ++
      [u.table.sql, "SET " ++ join ", " values] ++
      clause "WHERE" " AND " (u.filters.map (Expr.querySql collation)))

/-- The text of what a statement is compiled to. -/
def Command.sql (collation : String) : Command → String
  | .query q => q.sql collation
  | .update u => u.sql collation

end Transact
