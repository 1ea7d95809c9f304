import Transact.Expr.Basic
import Transact.Text.Lower

/-!
# Renaming

Changes of the names in an expression that keep its shape: redirecting references from one table to
another, and lower-casing the identifiers so that expressions can be compared regardless of case.
-/

set_option autoImplicit false

namespace Transact

/-- A change of names: of columns, of the tables of wildcards, of functions, of raw text. -/
structure Renaming where
  column : ColumnRef → ColumnRef := id
  table : String → String := id
  function : String → String := id
  raw : String → String := id

namespace Renaming

/-- References qualified by `source` become qualified by `target`. -/
def requalify (source target : String) : Renaming where
  column c := if c.table = some source then { c with table := some target } else c
  table t := if t = source then target else t

/-- All identifiers in lower case. Aliases and constants stay. -/
def lowercase : Renaming where
  column c := ⟨c.table.map Text.lower, Text.lower c.name⟩
  table := Text.lower
  function := Text.lower
  raw := Text.lower

end Renaming

namespace Expr

variable {σ : Type}

mutual

/-- The expression under a change of names, subqueries excepted. -/
def rename (r : Renaming) : Expr σ → Expr σ
  | .column c => .column (r.column c)
  | .wildcard table => .wildcard (table.map r.table)
  | .literal v => .literal v
  | .typed v ty => .typed v ty
  | .aggregate fn args d => .aggregate fn (renameList r args) d
  | .call name args => .call (r.function name) (renameList r args)
  | .alias e name => .alias (rename r e) name
  | .distinct e => .distinct (rename r e)
  | .binary l op rt => .binary (rename r l) op (rename r rt)
  | .not e => .not (rename r e)
  | .isNull e n => .isNull (rename r e) n
  | .inList e list n => .inList (rename r e) (renameList r list) n
  | .inSubquery e q n => .inSubquery (rename r e) q n
  | .grouping e => .grouping (rename r e)
  | .caseSensitive e => .caseSensitive (rename r e)
  | .raw s => .raw (r.raw s)

/-- The expressions under a change of names. -/
def renameList (r : Renaming) : List (Expr σ) → List (Expr σ)
  | [] => []
  | e :: es => rename r e :: renameList r es

end

/-- The expression with references to `source` redirected to `target`. -/
def requalify (source target : String) (e : Expr σ) : Expr σ :=
  e.rename (.requalify source target)

/-- The expression with its identifiers in lower case. -/
def lowercase (e : Expr σ) : Expr σ := e.rename .lowercase

/-- What two spellings of one expression have in common: no marks, no aliases, names in lower
case. -/
def normalized (e : Expr σ) : Expr σ := e.unmarked.unaliased.lowercase

end Expr

namespace SortKey

variable {σ : Type}

/-- The key under a change of names. -/
def rename (r : Renaming) (k : SortKey σ) : SortKey σ := { k with expr := k.expr.rename r }

end SortKey

end Transact
