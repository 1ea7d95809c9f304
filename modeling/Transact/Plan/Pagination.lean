import Transact.Expr.Rename
import Transact.Plan.Scope
import Transact.Plan.Shape

/-!
# Pagination

A select with an offset numbers its rows in a derived table and keeps those whose number is past the
offset.
-/

set_option autoImplicit false

namespace Transact

variable {σ : Type}

/-! ## What rows are numbered by -/

/-- The keys by which rows are numbered: the order of the select, else the primary key or the first
column of the base table, else no order in particular. -/
def SelectBody.rowKeys (s : SelectBody σ) (c : Core σ) : Trace (List (SortKey σ)) :=
  if s.orders.isEmpty then
    match c.baseTable?.bind fun t => t.keyColumn?.or t.columnRefs.head? with
    | some column => pure [(Expr.column column).asc]
    | none => do
      Trace.say .arbitraryOrder
      pure [(Expr.raw "(SELECT NULL)").asc]
  else pure s.orders

/-- The expression by which a projection is ranked. All columns of the base table are ranked by its
primary key, other wildcards not at all. -/
def Shape.rankable? (sh : Shape) (base : Option TableRef) (p : Expr σ) : Option (Expr σ) :=
  let e := (if sh.hasCall then p.unmarked else p.bare).unaliased
  match e, base with
  | .wildcard (some table), some base =>
    if table = base.qualifier then base.keyColumn?.map .column else none
  | .wildcard _, _ => none
  | e, _ => some e

/-- The keys of a dense rank under which two rows have one rank exactly when they are duplicates:
the order of the select, then every projection that is not yet among the keys. -/
def Shape.denseKeys [BEq σ] (sh : Shape) (s : SelectBody σ) (c : Core σ) :
    Trace (List (SortKey σ)) :=
  let keys := c.projections.foldl (fun keys p =>
    match sh.rankable? c.baseTable? p with
    | some e => if keys.any (·.expr == e) then keys else keys ++ [e.asc]
    | none => keys) s.orders
  if keys.isEmpty then do
    Trace.say .unrankable
    s.rowKeys c
  else pure keys

/-! ## The numbered rows -/

/-- Projections of the numbered rows. Without calls they are reduced to what they are built on. -/
def Shape.numberedProjections (sh : Shape) (c : Core σ) : List (Expr σ) :=
  if sh.hasCall then c.projections else c.projections.map Expr.bare

/-- Groups of the numbered rows. A single distinct projection is grouped, and the order with it. -/
def Shape.numberedGroups [BEq σ] (sh : Shape) (s : SelectBody σ) (c : Core σ) : List (Expr σ) :=
  if sh.singleDistinct then
    let groups :=
      if c.groups.isEmpty then (sh.numberedProjections c).map fun p => p.bare.unaliased
      else c.groups
    Expr.columnsForDistinct groups s.orders
  else c.groups

/-! ## The query around them -/

/-- How the outer query refers to a projection of the numbered rows. -/
def Scope.outerReference (sc : Scope σ) (c : Core σ) (p : Expr σ) : Expr σ :=
  match p.unmarked.alias? with
  | some name => .qualified sc.names.numbered name
  | none =>
    let qualifier := (c.baseTable?.map TableRef.qualifier).getD ""
    p.unmarked.requalify qualifier sc.names.numbered

/-- The projections of the outer query. -/
def Scope.outerProjections (sc : Scope σ) (sh : Shape) (c : Core σ) : Trace (List (Expr σ)) :=
  if sh.singleDistinct then pure (c.projections.map (sc.outerReference c))
  else if sh.hasJoin && sh.allAliased then pure ((c.projections.filterMap Expr.alias?).map .named)
  else if sh.keyOnly then
    match c.projections with
    | .column column :: _ => pure [.qualified sc.names.numbered column.name]
    | _ => Trace.fail .keyNotProjected
  else pure [.allOf sc.names.numbered]

/-- The columns of the outer query. -/
def Scope.outerColumns (sc : Scope σ) (sh : Shape) (c : Core σ) : Trace (List (Expr Query)) := do
  let projections ← sc.outerProjections sh c
  sc.exprs projections

/-- The limit, unless it stands for none. -/
def SelectBody.boundedLimit? [BEq σ] (s : SelectBody σ) : Option (Expr σ) :=
  s.limit.filter fun limit => !(limit == .int unboundedLimit)

/-- The number of a row, as the outer query refers to it. -/
def SyntheticNames.rowNumberColumn (n : SyntheticNames) : Expr Query :=
  .qualified n.numbered n.rowNumber

/-- The rows whose number is past the offset. -/
def SyntheticNames.pastOffset (n : SyntheticNames) (offset : Option (Expr Query)) :
    List (Expr Query) :=
  offset.toList.map fun m => .binary n.rowNumberColumn .gt (.grouping m)

/-- The query of a paginated select. -/
def Scope.paginated [BEq σ] (sc : Scope σ) (sh : Shape) (s : SelectBody σ) (c : Core σ) :
    Trace Query := do
  let ranksDistinct := c.distinct || sh.singleDistinct
  let ranking : Ranking := if ranksDistinct then .denseRank else .rowNumber
  let keys ← if ranksDistinct then sh.denseKeys s c else s.rowKeys c
  let top ← sc.expr? s.boundedLimit?
  let outer ← sc.outerColumns sh c
  let window ← sc.window ranking [] keys
  let columns ← sc.projections (sh.numberedProjections c)
  let frame ← sc.frame s c (sh.numberedGroups s c)
  let offset ← sc.expr? s.offset
  let numbered : Query :=
    .of { frame with
      distinct := c.distinct
      columns := [[.ranked window sc.names.rowNumber], columns] }
  pure
    (.of
      { distinct := sh.singleDistinct && sh.hasGroups
        top := top
        columns := [outer.map .expr]
        rows := some (.derived numbered sc.names.numbered)
        filters := sc.names.pastOffset offset
        orders := [⟨sc.names.rowNumberColumn, some .asc⟩] })

end Transact
