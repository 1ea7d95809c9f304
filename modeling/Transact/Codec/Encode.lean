import Transact.Calendar.Writer
import Transact.Codec.Tag
import Transact.Json.Writer
import Transact.Statement

/-!
# Statements as JSON

The JSON form of the trees. A record is an object of all its fields in the order of their
declaration, absent values are `null`; a variant is an object whose only field is named for it, or
its name alone when it carries nothing. Trees over JSON, whose subqueries are encoded already, are
encoded level by level.
-/

set_option autoImplicit false

namespace Transact

open Json

/-- A value that may be absent. -/
def Json.ofOption {α : Type} (f : α → Json) : Option α → Json
  | none => .null
  | some a => f a

/-- A variant with its payload. -/
def Json.variant (name : String) (payload : Json) : Json := .object [(name, payload)]

/-- The JSON form of a column. -/
def ColumnRef.encode (c : ColumnRef) : Json :=
  .object [("table", .ofOption .string c.table), ("name", .string c.name)]

/-- The JSON form of a constant. -/
def Literal.encode : Literal → Json
  | .null => .string "Null"
  | .boolean b => .variant "Boolean" (.bool b)
  | .integer i => .variant "Integer" (.integer i.toInt)
  | .float x => .variant "Float" (.float x)
  | .string s => .variant "String" (.string s)
  | .date d => .variant "Date" (.string d.text)
  | .dateTime t => .variant "DateTime" (.string t.exactText)
  | .time t => .variant "Time" (.string t.exactText)
  | .binary bytes => .variant "Binary" (.array (bytes.map fun b => .integer b.toNat))

namespace Expr

mutual

/-- The JSON form of an expression whose subqueries are encoded. -/
def encode : Expr Json → Json
  | .column c => .variant "Column" c.encode
  | .wildcard table => .variant "Wildcard" (.object [("table", .ofOption .string table)])
  | .literal v => .variant "Literal" v.encode
  | .typed v ty => .variant "Typed" (.object [("value", v.encode), ("ty", .string ty.tag)])
  | .aggregate fn args d =>
    .variant "Aggregate"
      (.object [("func", .string fn.tag), ("args", .array (encodeList args)),
        ("distinct", .bool d)])
  | .call name args =>
    .variant "Function" (.object [("name", .string name), ("args", .array (encodeList args))])
  | .alias e name => .variant "Alias" (.object [("expr", encode e), ("alias", .string name)])
  | .distinct e => .variant "Distinct" (encode e)
  | .binary l op r =>
    .variant "Binary" (.object [("left", encode l), ("op", .string op.tag), ("right", encode r)])
  | .not e => .variant "Not" (encode e)
  | .isNull e n => .variant "IsNull" (.object [("expr", encode e), ("negated", .bool n)])
  | .inList e list n =>
    .variant "InList"
      (.object [("expr", encode e), ("list", .array (encodeList list)), ("negated", .bool n)])
  | .inSubquery e q n =>
    .variant "InSubquery" (.object [("expr", encode e), ("subquery", q), ("negated", .bool n)])
  | .grouping e => .variant "Grouping" (encode e)
  | .caseSensitive e => .variant "CaseSensitive" (encode e)
  | .raw s => .variant "Raw" (.string s)

/-- The JSON forms of the expressions. -/
def encodeList : List (Expr Json) → List Json
  | [] => []
  | e :: es => encode e :: encodeList es

end

end Expr

/-- The JSON form of a sort key. -/
def SortKey.encode (k : SortKey Json) : Json :=
  .object [("expr", k.expr.encode), ("direction", .string k.direction.tag)]

/-- The JSON form of a table. -/
def TableRef.encode (t : TableRef) : Json :=
  .object
    [("name", .string t.name), ("schema", .ofOption .string t.schema),
      ("alias", .ofOption .string t.aliasName), ("primary_key", .ofOption .string t.primaryKey),
      ("columns", .array (t.columns.map .string))]

/-- The JSON form of a source. -/
def Source.encode : Source Json → Json
  | .table t => .variant "Table" t.encode
  | .join kind left right condition =>
    .variant "Join"
      (.object
        [("kind", .string kind.tag), ("left", encode left), ("right", encode right),
          ("on", .ofOption Expr.encode condition)])
  | .raw text => .variant "Raw" (.string text)

/-- The JSON form of a lock. -/
def Lock.encode : Lock → Json
  | .default => .string "Default"
  | .hint text => .variant "Hint" (.string text)

/-- The JSON form of a core. -/
def Core.encode (c : Core Json) : Json :=
  .object
    [("projections", .array (Expr.encodeList c.projections)),
      ("source", .ofOption Source.encode c.source),
      ("wheres", .array (Expr.encodeList c.wheres)),
      ("groups", .array (Expr.encodeList c.groups)),
      ("having", .ofOption Expr.encode c.having),
      ("set_quantifier", if c.distinct then .string "Distinct" else .null)]

/-- The JSON form of a level. -/
def SelectBody.encode (s : SelectBody Json) : Json :=
  .object
    [("cores", .array (s.cores.map Core.encode)),
      ("orders", .array (s.orders.map SortKey.encode)),
      ("limit", .ofOption Expr.encode s.limit),
      ("offset", .ofOption Expr.encode s.offset),
      ("lock", .ofOption Lock.encode s.lock)]

/-- The JSON form of a select. -/
def Select.encode (s : Select) : Json := s.fold SelectBody.encode

/-- The JSON form of an expression of a statement. -/
def Expr.toJson (e : Expr Select) : Json := (e.map Select.encode).encode

/-- The JSON form of a sort key of a statement. -/
def SortKey.toJson (k : SortKey Select) : Json := (k.map Select.encode).encode

/-- The JSON form of a source of a statement. -/
def Source.toJson (s : Source Select) : Json := (s.map Select.encode).encode

/-- The JSON form of an update. -/
def Update.encode (u : Update) : Json :=
  .object
    [("relation", u.table.encode),
      ("values", .array (u.values.map fun (c, e) => .array [c.encode, e.toJson])),
      ("wheres", .array (u.wheres.map Expr.toJson)),
      ("orders", .array (u.orders.map SortKey.toJson)),
      ("limit", .ofOption Expr.toJson u.limit),
      ("key", .ofOption ColumnRef.encode u.key)]

/-- The JSON form of a statement. -/
def Statement.encode : Statement → Json
  | .select s => .variant "Select" s.encode
  | .update u => .variant "Update" u.encode

/-- The JSON text of a statement. -/
def Statement.toText (s : Statement) : String := s.encode.write

end Transact
