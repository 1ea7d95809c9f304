import Transact.Literal
import Transact.Text.Blank

/-!
# Expressions

The expressions of a statement. `Expr σ` is an expression whose subqueries are of type `σ`:
statements have expressions over statements, and the queries that they are compiled to have
expressions over queries. Operations on an expression leave its subqueries alone, since a subquery
is a scope of its own.
-/

set_option autoImplicit false

namespace Transact

/-- A column, perhaps qualified by a table name or alias. -/
structure ColumnRef where
  table : Option String
  name : String
deriving DecidableEq

/-- The aggregate functions. -/
inductive AggregateFn where
  | count
  | sum
  | min
  | max
  | avg
deriving DecidableEq

/-- The binary operators. -/
inductive BinaryOp where
  | eq
  | notEq
  | lt
  | lte
  | gt
  | gte
  | and
  | or
  | like
  | notLike
  | add
  | sub
  | mul
  | div
deriving DecidableEq

/-- An expression over subqueries of type `σ`. -/
inductive Expr (σ : Type) where
  | column (c : ColumnRef)
  /-- `*`, or all columns of a table -/
  | wildcard (table : Option String)
  | literal (v : Literal)
  /-- a constant bound to a column of this type -/
  | typed (v : Literal) (ty : ColumnType)
  /-- an aggregate of its arguments, or of whole rows when there are none -/
  | aggregate (fn : AggregateFn) (args : List (Expr σ)) (distinct : Bool)
  | call (name : String) (args : List (Expr σ))
  | alias (e : Expr σ) (name : String)
  /-- the mark on a projection that asks for distinct rows -/
  | distinct (e : Expr σ)
  | binary (left : Expr σ) (op : BinaryOp) (right : Expr σ)
  | not (e : Expr σ)
  | isNull (e : Expr σ) (negated : Bool)
  | inList (e : Expr σ) (list : List (Expr σ)) (negated : Bool)
  | inSubquery (e : Expr σ) (query : σ) (negated : Bool)
  /-- an expression in parentheses -/
  | grouping (e : Expr σ)
  /-- an operand that is compared case-sensitively -/
  | caseSensitive (e : Expr σ)
  /-- text that is taken as it stands -/
  | raw (text : String)

/-! ## Words of the language -/

namespace AggregateFn

/-- All aggregate functions, in the order of their declaration. -/
def all : List AggregateFn := [.count, .sum, .min, .max, .avg]

/-- The name of the function. -/
def keyword : AggregateFn → String
  | .count => "COUNT"
  | .sum => "SUM"
  | .min => "MIN"
  | .max => "MAX"
  | .avg => "AVG"

/-- The function of this name, in capitals. -/
def parse (text : String) : Except Diagnostic AggregateFn :=
  match all.find? (·.keyword == text) with
  | some fn => .ok fn
  | none => .error .unmatched

end AggregateFn

namespace BinaryOp

/-- All operators, in the order of their declaration. -/
def all : List BinaryOp :=
  [.eq, .notEq, .lt, .lte, .gt, .gte, .and, .or, .like, .notLike, .add, .sub, .mul, .div]

/-- The sign of the operator. -/
def keyword : BinaryOp → String
  | .eq => "="
  | .notEq => "<>"
  | .lt => "<"
  | .lte => "<="
  | .gt => ">"
  | .gte => ">="
  | .and => "AND"
  | .or => "OR"
  | .like => "LIKE"
  | .notLike => "NOT LIKE"
  | .add => "+"
  | .sub => "-"
  | .mul => "*"
  | .div => "/"

end BinaryOp

namespace Expr

variable {σ τ : Type}

/-! ## Building expressions -/

/-- The column of this name. -/
def named (name : String) : Expr σ := .column ⟨none, name⟩

/-- The column of this name in a table. -/
def qualified (table name : String) : Expr σ := .column ⟨some table, name⟩

/-- `*` -/
def star : Expr σ := .wildcard none

/-- All columns of a table. -/
def allOf (table : String) : Expr σ := .wildcard (some table)

/-- An integer. -/
def int (i : Int64) : Expr σ := .literal (.integer i)

/-- A text constant. -/
def textConstant (s : String) : Expr σ := .literal (.string s)

/-- The number of rows for which the arguments are not null. -/
def countOf (args : List (Expr σ)) : Expr σ := .aggregate .count args false

/-- An aggregate of one expression. -/
def aggregateOf (fn : AggregateFn) (arg : Expr σ) : Expr σ := .aggregate fn [arg] false

/-- `left = right` -/
def equals (left right : Expr σ) : Expr σ := .binary left .eq right

/-- `left AND right` -/
def both (left right : Expr σ) : Expr σ := .binary left .and right

/-! ## Aliases and marks -/

/-- The expression without the aliases around it. -/
def unaliased : Expr σ → Expr σ
  | .alias e _ => unaliased e
  | e => e

/-- The outermost alias. -/
def alias? : Expr σ → Option String
  | .alias _ name => some name
  | _ => none

/-- A `COUNT`, under aliases or not. -/
def isCount (e : Expr σ) : Bool :=
  match e.unaliased with
  | .aggregate .count _ _ => true
  | _ => false

/-- An aggregate or another call, under aliases or not. -/
def isCall (e : Expr σ) : Bool :=
  match e.unaliased with
  | .aggregate _ _ _ => true
  | .call _ _ => true
  | _ => false

/-- The expression asks for distinct rows. An aggregate over distinct values does not: it changes
the value of the aggregate and not which rows there are. -/
def isMarked (e : Expr σ) : Bool :=
  match e.unaliased with
  | .distinct _ => true
  | _ => false

/-- The expression without its marks; aliases and everything below them stay. -/
def unmarked : Expr σ → Expr σ
  | .distinct e => unmarked e
  | .alias e name => .alias (unmarked e) name
  | e => e

mutual

/-- What a projection is built on: marks go, an aggregate becomes its first argument, aliases
stay. -/
def bare : Expr σ → Expr σ
  | .aggregate _ args _ => bareFirst args
  | .distinct e => bare e
  | .alias e name => .alias (bare e) name
  | e => e

/-- What the first argument of an aggregate is built on; `*` when there is none. -/
def bareFirst : List (Expr σ) → Expr σ
  | [] => star
  | e :: _ => bare e

end

/-- The table whose columns are all projected, under aliases and marks. -/
def wildcardTable? : Expr σ → Option String
  | .alias e _ => wildcardTable? e
  | .distinct e => wildcardTable? e
  | .wildcard table => table
  | _ => none

/-- The constant `1`, which a query around this one could not refer to without an alias. -/
def isLiteralOne : Expr σ → Bool
  | .literal (.integer i) => i == 1
  | .raw s => Text.trim s == "1"
  | _ => false

/-! ## Subqueries -/

mutual

/-- The expression with its subqueries replaced. -/
def map (f : σ → τ) : Expr σ → Expr τ
  | .column c => .column c
  | .wildcard table => .wildcard table
  | .literal v => .literal v
  | .typed v ty => .typed v ty
  | .aggregate fn args d => .aggregate fn (mapList f args) d
  | .call name args => .call name (mapList f args)
  | .alias e name => .alias (map f e) name
  | .distinct e => .distinct (map f e)
  | .binary l op r => .binary (map f l) op (map f r)
  | .not e => .not (map f e)
  | .isNull e n => .isNull (map f e) n
  | .inList e list n => .inList (map f e) (mapList f list) n
  | .inSubquery e q n => .inSubquery (map f e) (f q) n
  | .grouping e => .grouping (map f e)
  | .caseSensitive e => .caseSensitive (map f e)
  | .raw s => .raw s

/-- The expressions with their subqueries replaced. -/
def mapList (f : σ → τ) : List (Expr σ) → List (Expr τ)
  | [] => []
  | e :: es => map f e :: mapList f es

end

mutual

/-- The expression with its subqueries replaced one after the other, from left to right. -/
def mapM {m : Type → Type} [Monad m] (f : σ → m τ) : Expr σ → m (Expr τ)
  | .column c => pure (.column c)
  | .wildcard table => pure (.wildcard table)
  | .literal v => pure (.literal v)
  | .typed v ty => pure (.typed v ty)
  | .aggregate fn args d => do
    let args ← mapListM f args
    pure (.aggregate fn args d)
  | .call name args => do
    let args ← mapListM f args
    pure (.call name args)
  | .alias e name => do
    let e ← mapM f e
    pure (.alias e name)
  | .distinct e => do
    let e ← mapM f e
    pure (.distinct e)
  | .binary l op r => do
    let l ← mapM f l
    let r ← mapM f r
    pure (.binary l op r)
  | .not e => do
    let e ← mapM f e
    pure (.not e)
  | .isNull e n => do
    let e ← mapM f e
    pure (.isNull e n)
  | .inList e list n => do
    let e ← mapM f e
    let list ← mapListM f list
    pure (.inList e list n)
  | .inSubquery e q n => do
    let e ← mapM f e
    let q ← f q
    pure (.inSubquery e q n)
  | .grouping e => do
    let e ← mapM f e
    pure (.grouping e)
  | .caseSensitive e => do
    let e ← mapM f e
    pure (.caseSensitive e)
  | .raw s => pure (.raw s)

/-- The expressions with their subqueries replaced one after the other. -/
def mapListM {m : Type → Type} [Monad m] (f : σ → m τ) : List (Expr σ) → m (List (Expr τ))
  | [] => pure []
  | e :: es => do
    let e ← mapM f e
    let es ← mapListM f es
    pure (e :: es)

end

/-! ## Equality -/

mutual

/-- Equality of expressions, given how subqueries are compared. Doubles are compared by value. -/
def sameWith (eq : σ → τ → Bool) : Expr σ → Expr τ → Bool
  | .column c, .column c' => c == c'
  | .wildcard t, .wildcard t' => t == t'
  | .literal v, .literal v' => v.same v'
  | .typed v ty, .typed v' ty' => v.same v' && ty == ty'
  | .aggregate fn args d, .aggregate fn' args' d' =>
    fn == fn' && sameListWith eq args args' && d == d'
  | .call name args, .call name' args' => name == name' && sameListWith eq args args'
  | .alias e name, .alias e' name' => sameWith eq e e' && name == name'
  | .distinct e, .distinct e' => sameWith eq e e'
  | .binary l op r, .binary l' op' r' => sameWith eq l l' && op == op' && sameWith eq r r'
  | .not e, .not e' => sameWith eq e e'
  | .isNull e n, .isNull e' n' => sameWith eq e e' && n == n'
  | .inList e list n, .inList e' list' n' =>
    sameWith eq e e' && sameListWith eq list list' && n == n'
  | .inSubquery e q n, .inSubquery e' q' n' => sameWith eq e e' && eq q q' && n == n'
  | .grouping e, .grouping e' => sameWith eq e e'
  | .caseSensitive e, .caseSensitive e' => sameWith eq e e'
  | .raw s, .raw s' => s == s'
  | _, _ => false

/-- Equality of lists of expressions, given how subqueries are compared. -/
def sameListWith (eq : σ → τ → Bool) : List (Expr σ) → List (Expr τ) → Bool
  | [], [] => true
  | e :: es, e' :: es' => sameWith eq e e' && sameListWith eq es es'
  | _, _ => false

end

instance [BEq σ] : BEq (Expr σ) := ⟨sameWith (· == ·)⟩

end Expr

/-! ## Sort keys -/

/-- The direction of a sort. -/
inductive Direction where
  | asc
  | desc
deriving DecidableEq

namespace Direction

/-- Both directions. -/
def all : List Direction := [.asc, .desc]

/-- The keyword of a direction. -/
def keyword : Direction → String
  | .asc => "ASC"
  | .desc => "DESC"

/-- The other direction. -/
def reversed : Direction → Direction
  | .asc => .desc
  | .desc => .asc

/-- The direction of this keyword, where ASCII letters may have either case. -/
def parse (text : String) : Except Diagnostic Direction :=
  match all.find? (·.keyword.toList == text.toList.map Char.toUpper) with
  | some d => .ok d
  | none => .error .unmatched

end Direction

/-- An expression to sort by, with its direction. -/
structure SortKey (σ : Type) where
  expr : Expr σ
  direction : Direction

namespace SortKey

variable {σ τ : Type}

/-- The key sorts downwards. -/
def isDescending (k : SortKey σ) : Bool := k.direction == .desc

/-- The same key in the other direction. -/
def reverse (k : SortKey σ) : SortKey σ := { k with direction := k.direction.reversed }

/-- The key with its subqueries replaced. -/
def map (f : σ → τ) (k : SortKey σ) : SortKey τ := ⟨k.expr.map f, k.direction⟩

/-- Every key in the other direction, in the same sequence. -/
def reverseAll (keys : List (SortKey σ)) : List (SortKey σ) := keys.map reverse

/-- Equality of keys, given how subqueries are compared. -/
def sameWith (eq : σ → τ → Bool) (k : SortKey σ) (k' : SortKey τ) : Bool :=
  k.expr.sameWith eq k'.expr && k.direction == k'.direction

end SortKey

namespace Expr

variable {σ : Type}

/-- The expression as an ascending sort key. -/
def asc (e : Expr σ) : SortKey σ := ⟨e, .asc⟩

/-- The expression as a descending sort key. -/
def desc (e : Expr σ) : SortKey σ := ⟨e, .desc⟩

/-- The columns that distinct rows need in order to be sorted by `keys`: the columns themselves,
then each sort expression that is not yet among them. -/
def columnsForDistinct [BEq σ] (columns : List (Expr σ)) (keys : List (SortKey σ)) :
    List (Expr σ) :=
  keys.foldl (fun found k => if found.contains k.expr then found else found ++ [k.expr]) columns

end Expr

end Transact
