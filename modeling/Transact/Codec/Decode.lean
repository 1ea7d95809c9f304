import Transact.Codec.Tag
import Transact.Json.Decoder
import Transact.Json.Reader
import Transact.Statement

/-!
# Statements from JSON

The decoders of the trees. A tree over subqueries of type `σ` is decoded when subqueries are. Every
step down into a tree opens a bracket, so that the bound on open brackets also bounds the recursion:
`depth` is more than can be open.
-/

set_option autoImplicit false

namespace Transact

open Json
open Json.Decoder (Payload)
open Json.Record (field optional)

/-- More steps than brackets can be open. -/
def Json.depth : Nat := Json.maxOpen + 1

namespace Json.Decoder

/-- A column. -/
def columnRef : Decoder ColumnRef :=
  (ColumnRef.mk <$> optional "table" .string <*> field "name" .string).decoder "struct ColumnRef"

/-- A constant. -/
def literal : Decoder Literal :=
  variants
    [("Null", .empty .null),
      ("Boolean", .single (bool.map .boolean)),
      ("Integer", .single (int64.map .integer)),
      ("Float", .single (float.map .float)),
      ("String", .single (string.map .string)),
      ("Date", .single ((reading Calendar.Date.read "a formatted date string").map .date)),
      ("DateTime",
        .single
          ((reading Calendar.Timestamp.read "a formatted date and time string").map .dateTime)),
      ("Time", .single ((reading Calendar.TimeOfDay.read "a formatted time string").map .time)),
      ("Binary", .single ((list byte).map .binary))]

/-- A column type. -/
def columnType : Decoder ColumnType := named ColumnType.tag ColumnType.all

/-- An aggregate function. -/
def aggregateFn : Decoder AggregateFn := named AggregateFn.tag AggregateFn.all

/-- An operator. -/
def binaryOp : Decoder BinaryOp := named BinaryOp.tag BinaryOp.all

/-- A direction. -/
def direction : Decoder Direction := named Direction.tag Direction.all

/-- A kind of join. -/
def joinKind : Decoder JoinKind := named JoinKind.tag JoinKind.all

/-- The set quantifier, of which there is one. -/
def quantifier : Decoder Unit := variants [("Distinct", .empty ())]

/-- A lock. -/
def lock : Decoder Lock :=
  variants [("Default", .empty .default), ("Hint", .single (string.map .hint))]

/-- A table. -/
def tableRef : Decoder TableRef :=
  (TableRef.mk <$> field "name" string <*> optional "schema" string <*> optional "alias" string <*>
    optional "primary_key" string <*> field "columns" (list string)).decoder "struct TableRef"

section

variable {σ : Type}

/-- The payload of a variant with named fields. -/
def exprFields (name : String) (r : Record (Expr σ)) : Payload (Expr σ) :=
  .fields (r.decoder ("struct variant Expr::" ++ name))

/-- An expression, given how its subqueries are decoded. -/
def expr (sub : Decoder σ) : Nat → Decoder (Expr σ)
  | 0 => fail
  | n + 1 =>
    let e := expr sub n
    variants
      [("Column", .single (columnRef.map .column)),
        ("Wildcard", exprFields "Wildcard" (Expr.wildcard <$> optional "table" string)),
        ("Literal", .single (literal.map .literal)),
        ("Typed",
          exprFields "Typed" (Expr.typed <$> field "value" literal <*> field "ty" columnType)),
        ("Aggregate",
          exprFields "Aggregate"
            (Expr.aggregate <$> field "func" aggregateFn <*> field "args" (list e) <*>
              field "distinct" bool)),
        ("Function",
          exprFields "Function" (Expr.call <$> field "name" string <*> field "args" (list e))),
        ("Alias", exprFields "Alias" (Expr.alias <$> field "expr" e <*> field "alias" string)),
        ("Distinct", .single (e.map .distinct)),
        ("Binary",
          exprFields "Binary"
            (Expr.binary <$> field "left" e <*> field "op" binaryOp <*> field "right" e)),
        ("Not", .single (e.map .not)),
        ("IsNull", exprFields "IsNull" (Expr.isNull <$> field "expr" e <*> field "negated" bool)),
        ("InList",
          exprFields "InList"
            (Expr.inList <$> field "expr" e <*> field "list" (list e) <*> field "negated" bool)),
        ("InSubquery",
          exprFields "InSubquery"
            (Expr.inSubquery <$> field "expr" e <*> field "subquery" sub <*>
              field "negated" bool)),
        ("Grouping", .single (e.map .grouping)),
        ("CaseSensitive", .single (e.map .caseSensitive)),
        ("Raw", .single (string.map .raw))]

/-- A source, given how its expressions are decoded. -/
def source (e : Decoder (Expr σ)) : Nat → Decoder (Source σ)
  | 0 => fail
  | n + 1 =>
    variants
      [("Table", .single (tableRef.map .table)),
        ("Join",
          .single
            ((Source.join <$> field "kind" joinKind <*> field "left" (source e n) <*>
              field "right" (source e n) <*> optional "on" e).decoder "struct Join")),
        ("Raw", .single (string.map .raw))]

/-- A sort key, given how its expression is decoded. -/
def sortKey (e : Decoder (Expr σ)) : Decoder (SortKey σ) :=
  (SortKey.mk <$> field "expr" e <*> field "direction" direction).decoder "struct Ordering"

/-- A core, given how its expressions are decoded. -/
def core (e : Decoder (Expr σ)) : Decoder (Core σ) :=
  (Core.mk <$> field "projections" (list e) <*> optional "source" (source e depth) <*>
    field "wheres" (list e) <*> field "groups" (list e) <*> optional "having" e <*>
    (Option.isSome <$> optional "set_quantifier" quantifier)).decoder "struct SelectCore"

/-- One level of a select, given how its expressions are decoded. -/
def selectBody (e : Decoder (Expr σ)) : Decoder (SelectBody σ) :=
  (SelectBody.mk <$> field "cores" (list (core e)) <*> field "orders" (list (sortKey e)) <*>
    optional "limit" e <*> optional "offset" e <*> optional "lock" lock).decoder
    "struct SelectStatement"

end

/-- A select whose subqueries nest less than `n` deep. -/
def selectWithin : Nat → Decoder Select
  | 0 => fail
  | n + 1 => (selectBody (expr (selectWithin n) depth)).map .of

/-- A select. -/
def select : Decoder Select := selectWithin depth

/-- An expression of a statement. -/
def statementExpr : Decoder (Expr Select) := expr select depth

/-- A source of a statement. -/
def statementSource : Decoder (Source Select) := source statementExpr depth

/-- A sort key of a statement. -/
def statementKey : Decoder (SortKey Select) := sortKey statementExpr

/-- An update. -/
def update : Decoder Update :=
  (Update.mk <$> field "relation" tableRef <*>
    field "values" (list (pair columnRef statementExpr)) <*>
    field "wheres" (list statementExpr) <*> field "orders" (list statementKey) <*>
    optional "limit" statementExpr <*> optional "key" columnRef).decoder "struct UpdateStatement"

/-- A statement. -/
def statement : Decoder Statement :=
  variants [("Select", .single (select.map .select)), ("Update", .single (update.map .update))]

/-- Decodes a whole value. -/
def run {α : Type} (d : Decoder α) (j : Json) : Except DecodeError α := d maxOpen j

end Json.Decoder

/-! ## Statements -/

/-- The code of the refusal of a JSON text, whatever is wrong with the text. -/
def Json.DecodeError.code (_ : DecodeError) : String := "E0002"

/-- The refusal of a JSON text, unless it has no wording of its own. -/
def Json.DecodeError.diagnostic? (e : DecodeError) : Option Diagnostic :=
  e.message?.map fun text => { reason := .simple text, code := some e.code }

/-- The statement that a JSON value denotes. -/
def Statement.decode (j : Json) : Except DecodeError Statement := Decoder.statement.run j

/-- The statement that a JSON text denotes. -/
def Statement.ofText (text : String) : Except DecodeError Statement :=
  match Json.read? text with
  | some j => Statement.decode j
  | none => .error .malformed

end Transact
