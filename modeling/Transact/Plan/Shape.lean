import Transact.Expr.Rename
import Transact.Select
import Transact.Trace

/-!
# Shapes

The facts about a select that decide how it is compiled.
-/

set_option autoImplicit false

namespace Transact

/-- What the compilation of a select depends on. -/
structure Shape where
  hasLimit : Bool
  hasOffset : Bool
  hasJoin : Bool
  hasGroups : Bool
  /-- the set quantifier or a mark on the first projection asks for distinct rows -/
  isDistinct : Bool
  /-- there is one projection, and it is marked -/
  singleDistinct : Bool
  /-- the one marked projection is all columns of a table -/
  wholeTable : Bool
  /-- some projection is an aggregate or another call -/
  hasCall : Bool
  /-- there are projections, and all of them have aliases -/
  allAliased : Bool
  /-- the one projection is the primary key of the base table -/
  keyOnly : Bool
  /-- the one projection is a count -/
  countOnly : Bool
  /-- some sort key is not projected -/
  foreignOrder : Bool
deriving DecidableEq

variable {σ : Type}

namespace Core

/-- There is one projection, and it is marked. -/
def singleDistinct (c : Core σ) : Bool :=
  match c.projections with
  | [p] => p.isMarked
  | _ => false

/-- The one projection is the primary key of the base table, perhaps qualified by it. -/
def keyOnly (c : Core σ) : Bool :=
  match c.projections, c.baseTable? with
  | [.column col], some table =>
    table.primaryKey == some col.name &&
      (match col.table with
        | some t => t == table.qualifier
        | none => true)
  | _, _ => false

/-- The one projection is a count. -/
def countOnly (c : Core σ) : Bool :=
  match c.projections with
  | [p] => p.isCount
  | _ => false

/-- The one projection is all columns of a table. -/
def wholeTable (c : Core σ) : Bool :=
  match c.projections with
  | [p] => p.wildcardTable?.isSome
  | _ => false

end Core

/-- A sort expression is among the projections: it is a column of a table that is projected whole,
the alias of a projection, or a projection itself, aliases, marks and letter case apart. -/
def isCovered [BEq σ] (projections : List (Expr σ)) (key : Expr σ) : Bool :=
  let whole := (projections.filterMap Expr.wildcardTable?).map Text.lower
  let aliases := (projections.filterMap Expr.alias?).map Text.lower
  let projected := (projections.map Expr.normalized).contains key.normalized
  match key.normalized with
  | .column ⟨some table, _⟩ => whole.contains table || projected
  | .column ⟨none, name⟩ => aliases.contains name || projected
  | _ => projected

namespace Shape

/-- The shape of a select with this first core. -/
def of [BEq σ] (s : SelectBody σ) (c : Core σ) : Shape where
  hasLimit := s.limit.isSome
  hasOffset := s.offset.isSome
  hasJoin := c.source.any Source.isJoin
  hasGroups := !c.groups.isEmpty
  isDistinct := c.distinct || c.projections.head?.any Expr.isMarked
  singleDistinct := c.singleDistinct
  wholeTable := c.singleDistinct && c.wholeTable
  hasCall := c.projections.any Expr.isCall
  allAliased := !c.projections.isEmpty && c.projections.all (·.alias?.isSome)
  keyOnly := c.keyOnly
  countOnly := c.countOnly
  foreignOrder := s.orders.any fun k => !isCovered c.projections k.expr

/-- The strategy for a select of this shape. -/
def strategy (sh : Shape) : Strategy :=
  if sh.countOnly && sh.hasLimit && !sh.hasJoin then .count
  else if sh.isDistinct && sh.foreignOrder then .distinctOrder
  else if sh.hasOffset then .paginated
  else .plain

/-- A limited single distinct projection is grouped, so that the limit counts distinct values. -/
def groupsToLimit (sh : Shape) : Bool :=
  sh.singleDistinct && sh.hasLimit && !sh.hasOffset && !sh.hasGroups && !sh.wholeTable

/-- A limited single distinct projection of a whole table is taken from a join. -/
def limitsWholeTable (sh : Shape) : Bool :=
  sh.wholeTable && sh.hasJoin && sh.hasLimit && !sh.hasOffset

end Shape

end Transact
