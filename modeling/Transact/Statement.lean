import Transact.Select

/-!
# Statements

A statement is a `SELECT` or an `UPDATE`.
-/

set_option autoImplicit false

namespace Transact

/-- An `UPDATE`. -/
structure Update where
  table : TableRef
  /-- the columns to set, with their new values -/
  values : List (ColumnRef × Expr Select)
  /-- conditions that all have to hold -/
  wheres : List (Expr Select)
  orders : List (SortKey Select)
  limit : Option (Expr Select)
  /-- the column that tells rows apart, for updates that are ordered or limited -/
  key : Option ColumnRef

/-- A statement. -/
inductive Statement where
  | select (s : Select)
  | update (u : Update)

end Transact
