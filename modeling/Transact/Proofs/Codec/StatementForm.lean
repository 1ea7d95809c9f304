import Transact.Proofs.Calendar.RoundTrip
import Transact.Proofs.Codec.Form
import Transact.Proofs.Select

/-!
# Forms of statements

How the trees may be written in JSON, part by part. A tree over forms, whose subqueries have their
forms already, is given its form level by level.

* `Statement.form`: how a statement may be written.
* `Statement.json_form`: it is written as `Statement.encode` does.
-/

set_option autoImplicit false

namespace Transact

open Json

/-! ## Forms of the trees -/

/-- How a column may be written. -/
def ColumnRef.form (c : ColumnRef) : Form :=
  .record [("table", .ofOption .text c.table), ("name", .text c.name)]

/-- How a constant may be written. -/
def Literal.form : Literal → Form
  | .null => .name "Null"
  | .boolean b => .variant "Boolean" (.flag b)
  | .integer i => .variant "Integer" (.integer i.toInt)
  | .float x => .variant "Float" (.float x)
  | .string s => .variant "String" (.text s)
  | .date d => .variant "Date" (.reading d.text (fun s => Calendar.Date.read s = .ok d) d.read_text)
  | .dateTime t =>
    .variant "DateTime"
      (.reading t.exactText (fun s => Calendar.Timestamp.read s = .ok t) t.read_exactText)
  | .time t =>
    .variant "Time"
      (.reading t.exactText (fun s => Calendar.TimeOfDay.read s = .ok t) t.read_exactText)
  | .binary bytes => .variant "Binary" (.list (bytes.map fun b => .integer b.toNat))

namespace Expr

mutual

/-- How an expression may be written, given the forms of its subqueries. -/
def form : Expr Form → Form
  | .column c => .variant "Column" c.form
  | .wildcard table => .variant "Wildcard" (.record [("table", .ofOption .text table)])
  | .literal v => .variant "Literal" v.form
  | .typed v ty => .variant "Typed" (.record [("value", v.form), ("ty", .name ty.tag)])
  | .aggregate fn args d =>
    .variant "Aggregate"
      (.record [("func", .name fn.tag), ("args", .list (formList args)), ("distinct", .flag d)])
  | .call name args =>
    .variant "Function" (.record [("name", .text name), ("args", .list (formList args))])
  | .alias e name => .variant "Alias" (.record [("expr", form e), ("alias", .text name)])
  | .distinct e => .variant "Distinct" (form e)
  | .binary l op r =>
    .variant "Binary" (.record [("left", form l), ("op", .name op.tag), ("right", form r)])
  | .not e => .variant "Not" (form e)
  | .isNull e n => .variant "IsNull" (.record [("expr", form e), ("negated", .flag n)])
  | .inList e list n =>
    .variant "InList"
      (.record [("expr", form e), ("list", .list (formList list)), ("negated", .flag n)])
  | .inSubquery e q n =>
    .variant "InSubquery" (.record [("expr", form e), ("subquery", q), ("negated", .flag n)])
  | .grouping e => .variant "Grouping" (form e)
  | .caseSensitive e => .variant "CaseSensitive" (form e)
  | .raw s => .variant "Raw" (.text s)

/-- How the expressions may be written. -/
def formList : List (Expr Form) → List Form
  | [] => []
  | e :: es => form e :: formList es

end

end Expr

/-- How a sort key may be written. -/
def SortKey.form (k : SortKey Form) : Form :=
  .record [("expr", k.expr.form), ("direction", .name k.direction.tag)]

/-- How a table may be written. -/
def TableRef.form (t : TableRef) : Form :=
  .record
    [("name", .text t.name), ("schema", .ofOption .text t.schema),
      ("alias", .ofOption .text t.aliasName), ("primary_key", .ofOption .text t.primaryKey),
      ("columns", .list (t.columns.map .text))]

/-- How a source may be written. -/
def Source.form : Source Form → Form
  | .table t => .variant "Table" t.form
  | .join kind left right condition =>
    .variant "Join"
      (.record
        [("kind", .name kind.tag), ("left", form left), ("right", form right),
          ("on", .ofOption Expr.form condition)])
  | .raw text => .variant "Raw" (.text text)

/-- How a lock may be written. -/
def Lock.form : Lock → Form
  | .default => .name "Default"
  | .hint text => .variant "Hint" (.text text)

/-- How a core may be written. -/
def Core.form (c : Core Form) : Form :=
  .record
    [("projections", .list (Expr.formList c.projections)),
      ("source", .ofOption Source.form c.source),
      ("wheres", .list (Expr.formList c.wheres)),
      ("groups", .list (Expr.formList c.groups)),
      ("having", .ofOption Expr.form c.having),
      ("set_quantifier", if c.distinct then .name "Distinct" else .absent)]

/-- How a level may be written. -/
def SelectBody.form (s : SelectBody Form) : Form :=
  .record
    [("cores", .list (s.cores.map Core.form)),
      ("orders", .list (s.orders.map SortKey.form)),
      ("limit", .ofOption Expr.form s.limit),
      ("offset", .ofOption Expr.form s.offset),
      ("lock", .ofOption Lock.form s.lock)]

/-- How a select may be written. -/
def Select.form (s : Select) : Form := s.fold SelectBody.form

/-- How an update may be written. -/
def Update.form (u : Update) : Form :=
  .record
    [("relation", u.table.form),
      ("values", .list (u.values.map fun v => .list [v.1.form, (v.2.map Select.form).form])),
      ("wheres", .list (u.wheres.map fun e => (e.map Select.form).form)),
      ("orders", .list (u.orders.map fun k => (k.map Select.form).form)),
      ("limit", .ofOption (fun e => (e.map Select.form).form) u.limit),
      ("key", .ofOption ColumnRef.form u.key)]

/-- How a statement may be written. -/
def Statement.form : Statement → Form
  | .select s => .variant "Select" s.form
  | .update u => .variant "Update" u.form

/-! ## What is written -/

theorem Json.Form.json_ofOption {α : Type} {f : α → Form} {g : α → Json}
    (h : ∀ a, (f a).json = g a) (o : Option α) : (Form.ofOption f o).json = Json.ofOption g o := by
  cases o with
  | none => rfl
  | some a => exact h a

theorem ColumnRef.json_form (c : ColumnRef) : c.form.json = c.encode := by
  simp [form, encode, Form.json, Form.jsonFields, Form.json_ofOption (fun _ => rfl)]

theorem Literal.json_form (v : Literal) : v.form.json = v.encode := by
  cases v with
  | binary bytes =>
    simp [form, encode, Form.json, Form.jsonItems_eq, Function.comp_def]
  | _ => rfl

theorem TableRef.json_form (t : TableRef) : t.form.json = t.encode := by
  simp [form, encode, Form.json, Form.jsonFields, Form.json_ofOption (fun _ => rfl),
    Form.jsonItems_eq, Function.comp_def]

theorem Lock.json_form (l : Lock) : l.form.json = l.encode := by
  cases l <;> rfl

namespace Select

mutual

theorem json_fold : ∀ s : Select, (s.fold SelectBody.form).json = s.fold SelectBody.encode
  | .of ⟨cores, orders, limit, offset, lock⟩ => by
    simp [fold, SelectBody.form, SelectBody.encode, Form.json, Form.jsonFields,
      json_foldCores cores, json_foldKeys orders, json_foldOption limit, json_foldOption offset,
      Form.json_ofOption Lock.json_form]

theorem json_foldCores : ∀ cs : List (Core Select),
    Form.jsonItems ((foldCores SelectBody.form cs).map Core.form) =
      (foldCores SelectBody.encode cs).map Core.encode
  | [] => rfl
  | ⟨projections, source, wheres, groups, having, distinct⟩ :: cs => by
    have hquantifier : (if distinct then Form.name "Distinct" else .absent).json =
        if distinct then .string "Distinct" else .null := by
      cases distinct <;> rfl
    simp [foldCores, Core.form, Core.encode, Form.json, Form.jsonItems, Form.jsonFields,
      json_foldList projections, json_foldSourceOption source, json_foldList wheres,
      json_foldList groups, json_foldOption having, hquantifier, json_foldCores cs]

theorem json_foldKeys : ∀ ks : List (SortKey Select),
    Form.jsonItems ((foldKeys SelectBody.form ks).map SortKey.form) =
      (foldKeys SelectBody.encode ks).map SortKey.encode
  | [] => rfl
  | ⟨e, direction⟩ :: ks => by
    simp [foldKeys, SortKey.form, SortKey.encode, Form.json, Form.jsonItems, Form.jsonFields,
      json_foldExpr e, json_foldKeys ks]

theorem json_foldSourceOption : ∀ s : Option (Source Select),
    (Form.ofOption Source.form (foldSourceOption SelectBody.form s)).json =
      .ofOption Source.encode (foldSourceOption SelectBody.encode s)
  | none => rfl
  | some s => json_foldSource s

theorem json_foldSource : ∀ s : Source Select,
    (foldSource SelectBody.form s).form.json = (foldSource SelectBody.encode s).encode
  | .table t => congrArg (Json.variant "Table") t.json_form
  | .join kind left right condition => by
    simp [foldSource, Source.form, Source.encode, Form.json, Form.jsonFields, json_foldSource left,
      json_foldSource right, json_foldOption condition]
  | .raw _ => rfl

theorem json_foldOption : ∀ e : Option (Expr Select),
    (Form.ofOption Expr.form (foldOption SelectBody.form e)).json =
      .ofOption Expr.encode (foldOption SelectBody.encode e)
  | none => rfl
  | some e => json_foldExpr e

theorem json_foldList : ∀ es : List (Expr Select),
    Form.jsonItems (Expr.formList (foldList SelectBody.form es)) =
      Expr.encodeList (foldList SelectBody.encode es)
  | [] => rfl
  | e :: es => by
    simp [foldList, Expr.formList, Expr.encodeList, Form.jsonItems, json_foldExpr e,
      json_foldList es]

theorem json_foldExpr : ∀ e : Expr Select,
    (foldExpr SelectBody.form e).form.json = (foldExpr SelectBody.encode e).encode
  | .column c => congrArg (Json.variant "Column") c.json_form
  | .wildcard table => by
    simp [foldExpr, Expr.form, Expr.encode, Form.json, Form.jsonFields,
      Form.json_ofOption (fun _ => rfl)]
  | .literal v => congrArg (Json.variant "Literal") v.json_form
  | .typed v _ => by
    simp [foldExpr, Expr.form, Expr.encode, Form.json, Form.jsonFields, v.json_form]
  | .aggregate _ args _ | .call _ args => by
    simp [foldExpr, Expr.form, Expr.encode, Form.json, Form.jsonFields, json_foldList args]
  | .alias e _ | .distinct e | .not e | .isNull e _ | .grouping e | .caseSensitive e => by
    simp [foldExpr, Expr.form, Expr.encode, Form.json, Form.jsonFields, json_foldExpr e]
  | .binary l _ r => by
    simp [foldExpr, Expr.form, Expr.encode, Form.json, Form.jsonFields, json_foldExpr l,
      json_foldExpr r]
  | .inList e es _ => by
    simp [foldExpr, Expr.form, Expr.encode, Form.json, Form.jsonFields, json_foldExpr e,
      json_foldList es]
  | .inSubquery e q _ => by
    simp [foldExpr, Expr.form, Expr.encode, Form.json, Form.jsonFields, json_foldExpr e,
      json_fold q]
  | .raw _ => rfl

end

end Select

theorem Expr.json_form (e : Expr Select) : (e.map Select.form).form.json = e.toJson := by
  have h := Select.json_foldExpr e
  rwa [Select.foldExpr_eq, Select.foldExpr_eq] at h

theorem Update.json_form (u : Update) : u.form.json = u.encode := by
  have hkey : ∀ k : SortKey Select, (k.map Select.form).form.json = k.toJson := by
    intro k
    simp [SortKey.form, SortKey.toJson, SortKey.encode, SortKey.map, Form.json, Form.jsonFields,
      k.expr.json_form, Expr.toJson]
  simp [form, encode, Form.json, Form.jsonFields, Form.jsonItems_eq, Form.jsonItems,
    u.table.json_form, ColumnRef.json_form, Expr.json_form, hkey, Function.comp_def,
    Form.json_ofOption Expr.json_form, Form.json_ofOption ColumnRef.json_form]

/-- The form of a statement is written as the statement is. -/
theorem Statement.json_form (s : Statement) : s.form.json = s.encode := by
  cases s with
  | select s => exact congrArg (Json.variant "Select") (Select.json_fold s)
  | update u => exact congrArg (Json.variant "Update") u.json_form

end Transact
