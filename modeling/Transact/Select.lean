import Transact.Source

/-!
# Select statements

`SelectBody σ` is one level of a `SELECT`, with subqueries of type `σ`; a `Select` is a body whose
subqueries are statements of the same kind. Everything that goes down into the subqueries does so
through `Select.fold`.
-/

set_option autoImplicit false

namespace Transact

/-! ## One level -/

/-- The lock on the rows that a statement reads. -/
inductive Lock where
  /-- the lock that the options name -/
  | default
  | hint (text : String)
deriving DecidableEq

/-- The part of a statement between its keywords and its order. -/
structure Core (σ : Type) where
  projections : List (Expr σ) := []
  source : Option (Source σ) := none
  /-- conditions that all have to hold -/
  wheres : List (Expr σ) := []
  groups : List (Expr σ) := []
  having : Option (Expr σ) := none
  /-- the set quantifier asks for distinct rows -/
  distinct : Bool := false

/-- One level of a `SELECT`. Only its first core is compiled. -/
structure SelectBody (σ : Type) where
  cores : List (Core σ) := []
  orders : List (SortKey σ) := []
  limit : Option (Expr σ) := none
  offset : Option (Expr σ) := none
  lock : Option Lock := none

namespace Core

variable {σ τ : Type}

/-- The table that the rows are drawn from first. -/
def baseTable? (c : Core σ) : Option TableRef := c.source.map Source.baseTable

/-- The core with its subqueries replaced. -/
def map (f : σ → τ) (c : Core σ) : Core τ where
  projections := c.projections.map (·.map f)
  source := c.source.map (·.map f)
  wheres := c.wheres.map (·.map f)
  groups := c.groups.map (·.map f)
  having := c.having.map (·.map f)
  distinct := c.distinct

/-- Equality of cores, given how subqueries are compared. -/
def sameWith (eq : σ → τ → Bool) (c : Core σ) (d : Core τ) : Bool :=
  Expr.sameListWith eq c.projections d.projections &&
    (match c.source, d.source with
      | none, none => true
      | some s, some t => s.sameWith eq t
      | _, _ => false) &&
    Expr.sameListWith eq c.wheres d.wheres &&
    Expr.sameListWith eq c.groups d.groups &&
    Expr.sameListWith eq c.having.toList d.having.toList &&
    c.distinct == d.distinct

end Core

namespace SelectBody

variable {σ τ : Type}

/-- The body with its subqueries replaced. -/
def map (f : σ → τ) (s : SelectBody σ) : SelectBody τ where
  cores := s.cores.map (·.map f)
  orders := s.orders.map (·.map f)
  limit := s.limit.map (·.map f)
  offset := s.offset.map (·.map f)
  lock := s.lock

/-- Equality of lists of the same length, element by element. -/
def sameAll {α β : Type} (eq : α → β → Bool) : List α → List β → Bool
  | [], [] => true
  | a :: as, b :: bs => eq a b && sameAll eq as bs
  | _, _ => false

/-- Equality of bodies, given how subqueries are compared. -/
def sameWith (eq : σ → τ → Bool) (s : SelectBody σ) (t : SelectBody τ) : Bool :=
  sameAll (Core.sameWith eq) s.cores t.cores &&
    sameAll (SortKey.sameWith eq) s.orders t.orders &&
    Expr.sameListWith eq s.limit.toList t.limit.toList &&
    Expr.sameListWith eq s.offset.toList t.offset.toList &&
    s.lock == t.lock

/-! ### Building a level -/

/-- The select of these projections from a source. -/
def ofProjections (projections : List (Expr σ)) (source : Source σ) : SelectBody σ :=
  { cores := [{ projections := projections, source := some source }] }

/-- Changes the first core; no effect when there is none. -/
def modifyCore (f : Core σ → Core σ) (s : SelectBody σ) : SelectBody σ :=
  { s with cores := s.cores.modifyHead f }

/-- The select with these conditions. -/
def withWheres (wheres : List (Expr σ)) (s : SelectBody σ) : SelectBody σ :=
  s.modifyCore fun c => { c with wheres := wheres }

/-- The select with these groups. -/
def withGroups (groups : List (Expr σ)) (s : SelectBody σ) : SelectBody σ :=
  s.modifyCore fun c => { c with groups := groups }

/-- The select with this condition on its groups. -/
def withHaving (having : Expr σ) (s : SelectBody σ) : SelectBody σ :=
  s.modifyCore fun c => { c with having := some having }

/-- The select of distinct rows. -/
def distinctRows (s : SelectBody σ) : SelectBody σ :=
  s.modifyCore fun c => { c with distinct := true }

/-- The select in this order. -/
def withOrders (orders : List (SortKey σ)) (s : SelectBody σ) : SelectBody σ :=
  { s with orders := orders }

/-- The select in the reverse order. -/
def reverseOrders (s : SelectBody σ) : SelectBody σ :=
  s.withOrders (SortKey.reverseAll s.orders)

/-- The select with this limit, or without one. -/
def withLimit (limit : Option (Expr σ)) (s : SelectBody σ) : SelectBody σ :=
  { s with limit := limit }

/-- The select with this offset, or without one. -/
def withOffset (offset : Option (Expr σ)) (s : SelectBody σ) : SelectBody σ :=
  { s with offset := offset }

/-- The select with this lock, or without one. -/
def withLock (lock : Option Lock) (s : SelectBody σ) : SelectBody σ :=
  { s with lock := lock }

end SelectBody

/-! ## All levels -/

/-- A `SELECT`: a body whose subqueries are selects. -/
inductive Select where
  | of (body : SelectBody Select)

namespace Select

/-- The outermost level. -/
def body : Select → SelectBody Select
  | .of b => b

instance : Inhabited Select := ⟨.of {}⟩

section Fold

variable {α : Type} (level : SelectBody α → α)

mutual

/-- Computes a value from the inside out: `level` gives the value of a body whose subqueries have
been replaced by theirs. -/
def fold : Select → α
  | .of ⟨cores, orders, limit, offset, lock⟩ =>
    level ⟨foldCores cores, foldKeys orders, foldOption limit, foldOption offset, lock⟩

/-- The cores with their subqueries folded. -/
def foldCores : List (Core Select) → List (Core α)
  | [] => []
  | ⟨projections, source, wheres, groups, having, distinct⟩ :: cores =>
    ⟨foldList projections, foldSourceOption source, foldList wheres, foldList groups,
      foldOption having, distinct⟩ :: foldCores cores

/-- The sort keys with their subqueries folded. -/
def foldKeys : List (SortKey Select) → List (SortKey α)
  | [] => []
  | ⟨e, direction⟩ :: keys => ⟨foldExpr e, direction⟩ :: foldKeys keys

/-- A source that may be absent, with its subqueries folded. -/
def foldSourceOption : Option (Source Select) → Option (Source α)
  | none => none
  | some s => some (foldSource s)

/-- The source with its subqueries folded. -/
def foldSource : Source Select → Source α
  | .table t => .table t
  | .join kind left right condition =>
    .join kind (foldSource left) (foldSource right) (foldOption condition)
  | .raw text => .raw text

/-- An expression that may be absent, with its subqueries folded. -/
def foldOption : Option (Expr Select) → Option (Expr α)
  | none => none
  | some e => some (foldExpr e)

/-- The expressions with their subqueries folded. -/
def foldList : List (Expr Select) → List (Expr α)
  | [] => []
  | e :: es => foldExpr e :: foldList es

/-- The expression with its subqueries folded. -/
def foldExpr : Expr Select → Expr α
  | .column c => .column c
  | .wildcard table => .wildcard table
  | .literal v => .literal v
  | .typed v ty => .typed v ty
  | .aggregate fn args d => .aggregate fn (foldList args) d
  | .call name args => .call name (foldList args)
  | .alias e name => .alias (foldExpr e) name
  | .distinct e => .distinct (foldExpr e)
  | .binary l op r => .binary (foldExpr l) op (foldExpr r)
  | .not e => .not (foldExpr e)
  | .isNull e n => .isNull (foldExpr e) n
  | .inList e list n => .inList (foldExpr e) (foldList list) n
  | .inSubquery e q n => .inSubquery (foldExpr e) (fold q) n
  | .grouping e => .grouping (foldExpr e)
  | .caseSensitive e => .caseSensitive (foldExpr e)
  | .raw s => .raw s

end

end Fold

/-- Equality of selects, part by part. Doubles are compared by value. -/
def same (s t : Select) : Bool :=
  s.fold (fun body (t : Select) => body.sameWith (fun sub t => sub t) t.body) t

instance : BEq Select := ⟨same⟩

end Select

end Transact
