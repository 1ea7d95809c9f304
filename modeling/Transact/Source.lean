import Transact.Expr.Basic

/-!
# Row sources

What the rows of a statement are drawn from: a table, a join of two sources, or text that is taken
as it stands.
-/

set_option autoImplicit false

namespace Transact

/-- A table. Its primary key and columns are known only when the schema supplies them. -/
structure TableRef where
  name : String
  schema : Option String := none
  aliasName : Option String := none
  primaryKey : Option String := none
  columns : List String := []
deriving DecidableEq

namespace TableRef

/-- The name that qualifies the columns of the table. -/
def qualifier (t : TableRef) : String := t.aliasName.getD t.name

/-- The primary key as a column of the table. -/
def keyColumn? (t : TableRef) : Option ColumnRef :=
  t.primaryKey.map fun key => ⟨some t.qualifier, key⟩

/-- The known columns of the table. -/
def columnRefs (t : TableRef) : List ColumnRef :=
  t.columns.map fun name => ⟨some t.qualifier, name⟩

end TableRef

/-- The kinds of join. -/
inductive JoinKind where
  | inner
  | leftOuter
  | rightOuter
  | fullOuter
  | cross
  /-- the right side is text that has its own join keyword and condition -/
  | fragment
deriving DecidableEq

/-- All kinds of join, in the order of their declaration. -/
def JoinKind.all : List JoinKind :=
  [.inner, .leftOuter, .rightOuter, .fullOuter, .cross, .fragment]

/-- A source of rows. -/
inductive Source (σ : Type) where
  | table (t : TableRef)
  | join (kind : JoinKind) (left right : Source σ) (condition : Option (Expr σ))
  | raw (text : String)

namespace Source

variable {σ τ : Type}

/-- The source is a join. -/
def isJoin : Source σ → Bool
  | .join .. => true
  | _ => false

/-- The table that the rows are drawn from first: the leftmost one of a join. Text stands for a
table of that name. -/
def baseTable : Source σ → TableRef
  | .table t => t
  | .join _ left _ _ => baseTable left
  | .raw text => { name := Text.trim text }

/-- The source with its subqueries replaced. -/
def map (f : σ → τ) : Source σ → Source τ
  | .table t => .table t
  | .join kind left right condition =>
    .join kind (map f left) (map f right) (condition.map (·.map f))
  | .raw text => .raw text

/-- The source with its subqueries replaced one after the other, from left to right. A condition
that the join does not use is left out. -/
def mapM {m : Type → Type} [Monad m] (f : σ → m τ) : Source σ → m (Source τ)
  | .table t => pure (.table t)
  | .join kind left right condition => do
    let left ← mapM f left
    let right ← mapM f right
    match kind, condition with
    | .fragment, _ => pure (.join kind left right none)
    | .cross, _ => pure (.join kind left right none)
    | _, none => pure (.join kind left right none)
    | _, some condition => do
      let condition ← condition.mapM f
      pure (.join kind left right (some condition))
  | .raw text => pure (.raw text)

/-- Equality of sources, given how subqueries are compared. -/
def sameWith (eq : σ → τ → Bool) : Source σ → Source τ → Bool
  | .table t, .table t' => t == t'
  | .join kind left right condition, .join kind' left' right' condition' =>
    let sameCondition :=
      match condition, condition' with
      | none, none => true
      | some e, some e' => e.sameWith eq e'
      | _, _ => false
    kind == kind' && sameWith eq left left' && sameWith eq right right' && sameCondition
  | .raw text, .raw text' => text == text'
  | _, _ => false

end Source

end Transact
