import Transact.Codec.Decode
import Transact.Proofs.Calendar.RoundTrip
import Transact.Proofs.Codec.Decoder
import Transact.Proofs.Codec.Doubles
import Transact.Proofs.Select

/-!
# Statements read back from JSON

What is written for a statement is read as that statement with every double as it is read from its
own text, for every tree, as long as the brackets of the text are not too many. Every step down into
a tree opens a bracket, so that the inductions over expressions, sources and selects are on the
steps that the decoder has left.

* `Decoder.returns_literal`, `returns_expr`, `returns_source`, `returns_selectWithin`: the decoders
  of constants, expressions, sources and selects give back what was encoded.
* `Statement.readable_encode`: the encoding of a statement is one that the reader of texts can give.
* `Statement.ofText_toText`: the text of a statement is read exactly when it never has more than 127
  brackets open at once, and is refused otherwise. What is read is the statement itself exactly when
  each of its doubles is read back.
-/

set_option autoImplicit false

namespace Transact

open Json
open Json.Decoder (Payload Returns)
open Json.Record (field optional)

/-! ## Leaves -/

namespace Json.Decoder

theorem returns_columnType (room : Nat) (ty : ColumnType) :
    columnType.Returns room (.string ty.tag) ty :=
  returns_name room (by cases ty <;> rfl)

theorem returns_aggregateFn (room : Nat) (fn : AggregateFn) :
    aggregateFn.Returns room (.string fn.tag) fn :=
  returns_name room (by cases fn <;> rfl)

theorem returns_binaryOp (room : Nat) (op : BinaryOp) : binaryOp.Returns room (.string op.tag) op :=
  returns_name room (by cases op <;> rfl)

theorem returns_direction (room : Nat) (d : Direction) :
    direction.Returns room (.string d.tag) d :=
  returns_name room (by cases d <;> rfl)

theorem returns_joinKind (room : Nat) (kind : JoinKind) :
    joinKind.Returns room (.string kind.tag) kind :=
  returns_name room (by cases kind <;> rfl)

theorem returns_columnRef (room : Nat) (c : ColumnRef) : columnRef.Returns room c.encode c :=
  Record.Reads.returns _ (by simp) fun _ _ =>
    ((Record.reads_optional "table" (fun _ => by simp) fun s _ => returns_string _ s).map _).seq
      (Record.reads_field "name" (returns_string _ c.name))

theorem returns_tableRef (room : Nat) (t : TableRef) : tableRef.Returns room t.encode t :=
  Record.Reads.returns _ (by simp) fun _ _ =>
    (((((Record.reads_field "name" (returns_string _ t.name)).map _).seq
      (Record.reads_optional "schema" (fun _ => by simp) fun s _ => returns_string _ s)).seq
      (Record.reads_optional "alias" (fun _ => by simp) fun s _ => returns_string _ s)).seq
      (Record.reads_optional "primary_key" (fun _ => by simp) fun s _ => returns_string _ s)).seq
      (Record.reads_field "columns" (returns_list fun _ _ s _ => returns_string _ s))

theorem returns_lock (room : Nat) (l : Lock) : lock.Returns room l.encode l := by
  cases l with
  | default => exact returns_name room rfl
  | hint text => exact returns_variant rfl fun r _ => returns_map _ (returns_string r text)

theorem returns_literal (room : Nat) (v : Literal) : literal.Returns room v.encode v := by
  cases v with
  | null => exact returns_name room rfl
  | boolean b => exact returns_variant rfl fun r _ => returns_map _ (returns_bool r b)
  | integer i => exact returns_variant rfl fun r _ => returns_map _ (returns_int64 r i)
  | float x => exact returns_variant rfl fun r _ => returns_map _ (returns_float r x)
  | string s => exact returns_variant rfl fun r _ => returns_map _ (returns_string r s)
  | date d =>
    exact returns_variant rfl fun r _ => returns_map _ (returns_reading r _ d.read_text)
  | dateTime t =>
    exact returns_variant rfl fun r _ => returns_map _ (returns_reading r _ t.read_exactText)
  | time t =>
    exact returns_variant rfl fun r _ => returns_map _ (returns_reading r _ t.read_exactText)
  | binary bytes =>
    exact returns_variant rfl fun r _ =>
      returns_map _ (returns_list fun s _ b _ => returns_byte s b)

end Json.Decoder

/-! ## Expressions -/

theorem Expr.encodeList_mapList {σ : Type} (enc : σ → Json) (es : List (Expr σ)) :
    Expr.encodeList (Expr.mapList enc es) = es.map fun e => (e.map enc).encode := by
  induction es with
  | nil => rfl
  | cons e es ih => rw [Expr.mapList, Expr.encodeList, ih, List.map_cons]

namespace Json.Decoder

variable {σ : Type} {enc : σ → Json}

/-- Expressions are given back when their subqueries are. Every step down into an expression opens a
bracket, so that the induction is on the steps left and not on the expression. -/
theorem returns_expr {sub : Decoder σ} {bound : Nat}
    (hsub : ∀ r < bound, ∀ q, sub.Returns r (enc q) q) :
    ∀ (n room : Nat), room < n → room ≤ bound → ∀ e : Expr σ,
      (expr sub n).Returns room (e.map enc).encode e
  | 0, _, hn, _, _ => absurd hn (Nat.not_lt_zero _)
  | n + 1, room, hn, hbound, e => by
    have he : ∀ r < room, ∀ e : Expr σ, (expr sub n).Returns r (e.map enc).encode e :=
      fun r hr e => returns_expr hsub n r (by omega) (by omega) e
    have hlist : ∀ r < room, ∀ es : List (Expr σ), (list (expr sub n)).Returns r
        (.array (Expr.encodeList (Expr.mapList enc es))) es := by
      intro r hr es
      rw [Expr.encodeList_mapList]
      exact returns_list fun s hs e _ => he s (by omega) e
    cases e with
    | column c => exact returns_variant rfl fun r _ => returns_map _ (returns_columnRef r c)
    | wildcard table =>
      exact returns_variant rfl fun r _ => Record.Reads.returns _ (by simp) fun s _ =>
        (Record.reads_optional "table" (fun _ => by simp) fun t _ => returns_string s t).map _
    | literal v => exact returns_variant rfl fun r _ => returns_map _ (returns_literal r v)
    | typed v ty =>
      exact returns_variant rfl fun r _ => Record.Reads.returns _ (by simp) fun s _ =>
        ((Record.reads_field "value" (returns_literal s v)).map _).seq
          (Record.reads_field "ty" (returns_columnType s ty))
    | aggregate fn args d =>
      exact returns_variant rfl fun r _ => Record.Reads.returns _ (by simp) fun s _ =>
        (((Record.reads_field "func" (returns_aggregateFn s fn)).map _).seq
          (Record.reads_field "args" (hlist s (by omega) args))).seq
          (Record.reads_field "distinct" (returns_bool s d))
    | call name args =>
      exact returns_variant rfl fun r _ => Record.Reads.returns _ (by simp) fun s _ =>
        ((Record.reads_field "name" (returns_string s name)).map _).seq
          (Record.reads_field "args" (hlist s (by omega) args))
    | «alias» e name =>
      exact returns_variant rfl fun r _ => Record.Reads.returns _ (by simp) fun s _ =>
        ((Record.reads_field "expr" (he s (by omega) e)).map _).seq
          (Record.reads_field "alias" (returns_string s name))
    | distinct e => exact returns_variant rfl fun r hr => returns_map _ (he r hr e)
    | binary left op right =>
      exact returns_variant rfl fun r _ => Record.Reads.returns _ (by simp) fun s _ =>
        (((Record.reads_field "left" (he s (by omega) left)).map _).seq
          (Record.reads_field "op" (returns_binaryOp s op))).seq
          (Record.reads_field "right" (he s (by omega) right))
    | not e => exact returns_variant rfl fun r hr => returns_map _ (he r hr e)
    | isNull e negated =>
      exact returns_variant rfl fun r _ => Record.Reads.returns _ (by simp) fun s _ =>
        ((Record.reads_field "expr" (he s (by omega) e)).map _).seq
          (Record.reads_field "negated" (returns_bool s negated))
    | inList e es negated =>
      exact returns_variant rfl fun r _ => Record.Reads.returns _ (by simp) fun s _ =>
        (((Record.reads_field "expr" (he s (by omega) e)).map _).seq
          (Record.reads_field "list" (hlist s (by omega) es))).seq
          (Record.reads_field "negated" (returns_bool s negated))
    | inSubquery e query negated =>
      exact returns_variant rfl fun r _ => Record.Reads.returns _ (by simp) fun s _ =>
        (((Record.reads_field "expr" (he s (by omega) e)).map _).seq
          (Record.reads_field "subquery" (hsub s (by omega) query))).seq
          (Record.reads_field "negated" (returns_bool s negated))
    | grouping e => exact returns_variant rfl fun r hr => returns_map _ (he r hr e)
    | caseSensitive e => exact returns_variant rfl fun r hr => returns_map _ (he r hr e)
    | raw text => exact returns_variant rfl fun r _ => returns_map _ (returns_string r text)

/-! ## Sources, sort keys and levels -/

/-- A part that may be absent, whose subqueries are encoded before it is. -/
theorem reads_optionalMap {α β : Type} {f : β → Json} {g : α → β} {d : Decoder α} {room : Nat}
    (name : String) (hne : ∀ b, f b ≠ .null) (h : ∀ a, d.Returns room (f (g a)) a)
    (o : Option α) : (optional name d).Reads room [(name, .ofOption f (o.map g))] o := by
  have heq : Json.ofOption f (o.map g) = Json.ofOption (fun a => f (g a)) o := by
    cases o <;> rfl
  rw [heq]
  exact Record.reads_optional name (fun a => hne (g a)) fun a _ => h a

theorem expr_ne_null (e : Expr Json) : e.encode ≠ .null := by
  cases e <;> exact Json.noConfusion

theorem source_ne_null (s : Source Json) : s.encode ≠ .null := by
  cases s <;> exact Json.noConfusion

theorem lock_ne_null (l : Lock) : l.encode ≠ .null := by
  cases l <;> exact Json.noConfusion

/-- The set quantifier is absent or the one that there is. -/
theorem reads_quantifier (room : Nat) (d : Bool) :
    (Option.isSome <$> optional "set_quantifier" quantifier).Reads room
      [("set_quantifier", if d then .string "Distinct" else .null)] d := by
  have h : ∀ o : Option Unit, (Option.isSome <$> optional "set_quantifier" quantifier).Reads room
      [("set_quantifier", .ofOption (fun _ => .string "Distinct") o)] o.isSome := fun o =>
    (Record.reads_optional "set_quantifier" (fun _ => Json.noConfusion)
      fun _ _ => returns_name room rfl).map _
  cases d with
  | false => exact h none
  | true => exact h (some ())

section

variable {e : Decoder (Expr σ)}

/-- A list of expressions, when each of them is given back. -/
theorem returns_exprs {room : Nat}
    (he : ∀ r < room, ∀ x : Expr σ, e.Returns r (x.map enc).encode x) (xs : List (Expr σ)) :
    (list e).Returns room (.array (Expr.encodeList (xs.map (·.map enc)))) xs := by
  rw [← Expr.mapList_eq, Expr.encodeList_mapList]
  exact returns_list fun r hr x _ => he r hr x

theorem returns_source {bound : Nat}
    (he : ∀ r < bound, ∀ x : Expr σ, e.Returns r (x.map enc).encode x) :
    ∀ (n room : Nat), room < n → room ≤ bound → ∀ s : Source σ,
      (source e n).Returns room (s.map enc).encode s
  | 0, _, hn, _, _ => absurd hn (Nat.not_lt_zero _)
  | n + 1, room, hn, hbound, s => by
    have hs : ∀ r < room, ∀ s : Source σ, (source e n).Returns r (s.map enc).encode s :=
      fun r hr s => returns_source he n r (by omega) (by omega) s
    cases s with
    | table t => exact returns_variant rfl fun r _ => returns_map _ (returns_tableRef r t)
    | join kind left right condition =>
      exact returns_variant rfl fun r _ => Record.Reads.returns _ (by simp) fun s _ =>
        ((((Record.reads_field "kind" (returns_joinKind s kind)).map _).seq
          (Record.reads_field "left" (hs s (by omega) left))).seq
          (Record.reads_field "right" (hs s (by omega) right))).seq
          (reads_optionalMap "on" expr_ne_null (he s (by omega)) condition)
    | raw text => exact returns_variant rfl fun r _ => returns_map _ (returns_string r text)

variable {room : Nat} (he : ∀ r < room, ∀ x : Expr σ, e.Returns r (x.map enc).encode x)

include he

theorem returns_sortKey (k : SortKey σ) : (sortKey e).Returns room (k.map enc).encode k :=
  Record.Reads.returns _ (by simp) fun s hs =>
    ((Record.reads_field "expr" (he s hs k.expr)).map _).seq
      (Record.reads_field "direction" (returns_direction s k.direction))

theorem returns_core (hroom : room ≤ depth) (c : Core σ) :
    (core e).Returns room (c.map enc).encode c :=
  Record.Reads.returns _ (by simp [Core.map]) fun s hs => by
    have hexprs := returns_exprs fun r hr => he r (Nat.lt_trans hr hs)
    have hsource : ∀ x : Source σ, (source e depth).Returns s (x.map enc).encode x :=
      returns_source he depth s (by omega) (by omega)
    exact ((((((Record.reads_field "projections" (hexprs c.projections)).map _).seq
      (reads_optionalMap "source" source_ne_null hsource c.source)).seq
      (Record.reads_field "wheres" (hexprs c.wheres))).seq
      (Record.reads_field "groups" (hexprs c.groups))).seq
      (reads_optionalMap "having" expr_ne_null (he s hs) c.having)).seq
      (reads_quantifier s c.distinct)

theorem returns_selectBody (hroom : room ≤ depth) (b : SelectBody σ) :
    (selectBody e).Returns room (b.map enc).encode b :=
  Record.Reads.returns _ (by simp [SelectBody.map]) fun s hs => by
    have hcores : (list (core e)).Returns s
        (.array ((b.cores.map (·.map enc)).map Core.encode)) b.cores := by
      rw [List.map_map]
      exact returns_list fun r hr c _ =>
        returns_core (fun q hq => he q (by omega)) (by omega) c
    have horders : (list (sortKey e)).Returns s
        (.array ((b.orders.map (·.map enc)).map SortKey.encode)) b.orders := by
      rw [List.map_map]
      exact returns_list fun r hr k _ => returns_sortKey (fun q hq => he q (by omega)) k
    exact (((((Record.reads_field "cores" hcores).map _).seq
      (Record.reads_field "orders" horders)).seq
      (reads_optionalMap "limit" expr_ne_null (he s hs) b.limit)).seq
      (reads_optionalMap "offset" expr_ne_null (he s hs) b.offset)).seq
      (Record.reads_optional "lock" lock_ne_null fun l _ => returns_lock s l)

end

/-! ## Statements -/

/-- Selects are given back: a subquery stands inside brackets of the select around it. -/
theorem returns_selectWithin : ∀ (n room : Nat), room < n → room < depth → ∀ s : Select,
    (selectWithin n).Returns room s.encode s
  | 0, _, hn, _, _ => absurd hn (Nat.not_lt_zero _)
  | n + 1, room, hn, hroom, .of b => by
    have hsub : ∀ r < room, ∀ q : Select, (selectWithin n).Returns r q.encode q :=
      fun r hr q => returns_selectWithin n r (by omega) (by omega) q
    have hencode : (Select.of b).encode = (b.map Select.encode).encode :=
      Select.fold_of SelectBody.encode b
    rw [hencode]
    exact returns_map Select.of (returns_selectBody
      (fun r hr => returns_expr hsub depth r (by omega) (by omega)) (by omega) b)

section

variable {room : Nat} (hroom : room < depth)

include hroom

theorem returns_statementExpr (e : Expr Select) : statementExpr.Returns room e.toJson e :=
  returns_expr (fun r hr => returns_selectWithin depth r (by omega) (by omega)) depth room hroom
    (Nat.le_refl room) e

theorem returns_statementExprs (es : List (Expr Select)) :
    (list statementExpr).Returns room (.array (es.map Expr.toJson)) es :=
  returns_list fun r hr e _ => returns_statementExpr (by omega) e

theorem returns_update (u : Update) : update.Returns room u.encode u :=
  Record.Reads.returns _ (by simp) fun s hs => by
    have hvalues : (list (pair columnRef statementExpr)).Returns s
        (.array (u.values.map fun v => .array [v.1.encode, v.2.toJson])) u.values :=
      returns_list fun r hr v _ => returns_pair (fun q _ => returns_columnRef q v.1)
        fun q hq => returns_statementExpr (by omega) v.2
    have horders : (list statementKey).Returns s (.array (u.orders.map SortKey.toJson)) u.orders :=
      returns_list fun r hr k _ =>
        returns_sortKey (fun q hq => returns_statementExpr (by omega)) k
    exact ((((((Record.reads_field "relation" (returns_tableRef s u.table)).map _).seq
      (Record.reads_field "values" hvalues)).seq
      (Record.reads_field "wheres" (returns_statementExprs (by omega) u.wheres))).seq
      (Record.reads_field "orders" horders)).seq
      (Record.reads_optional "limit" (fun e => expr_ne_null (e.map Select.encode))
        fun e _ => returns_statementExpr (by omega) e)).seq
      (Record.reads_optional "key" (fun _ => Json.noConfusion) fun c _ => returns_columnRef s c)

theorem returns_statement (s : Statement) : statement.Returns room s.encode s := by
  cases s with
  | select s =>
    exact returns_variant rfl fun r hr =>
      returns_map _ (returns_selectWithin depth r (by omega) (by omega) s)
  | update u =>
    exact returns_variant rfl fun r hr => returns_map _ (returns_update (by omega) u)

end

end Json.Decoder

/-! ## Encoded statements are readable -/

theorem Json.readable_ofOption {α : Type} {f : α → Json} {o : Option α} (h : ∀ a, (f a).Readable) :
    (Json.ofOption f o).Readable := by
  cases o with
  | none => trivial
  | some a => exact h a

theorem Json.readable_strings (names : List String) : ReadableItems (names.map .string) :=
  (readableItems_iff _).2 (by simp [Readable])

theorem ColumnRef.readable_encode (c : ColumnRef) : c.encode.Readable :=
  ⟨readable_ofOption fun _ => trivial, trivial, trivial⟩

theorem TableRef.readable_encode (t : TableRef) : t.encode.Readable :=
  ⟨trivial, readable_ofOption fun _ => trivial, readable_ofOption fun _ => trivial,
    readable_ofOption fun _ => trivial, readable_strings t.columns, trivial⟩

theorem Literal.readable_encode (v : Literal) : v.encode.Readable := by
  cases v with
  | integer i =>
    have hlow : -9223372036854775808 ≤ i.toInt := i.minValue_le_toInt
    have hhigh : i.toInt ≤ 9223372036854775807 := i.toInt_le
    refine ⟨⟨hlow, ?_⟩, trivial⟩
    omega
  | binary bytes =>
    refine ⟨(readableItems_iff _).2 ?_, trivial⟩
    intro j hj
    obtain ⟨b, -, rfl⟩ := List.mem_map.1 hj
    have := b.toNat_lt
    refine ⟨?_, ?_⟩ <;> omega
  | null => trivial
  | boolean b => exact ⟨trivial, trivial⟩
  | float x => exact ⟨trivial, trivial⟩
  | string s => exact ⟨trivial, trivial⟩
  | date d => exact ⟨trivial, trivial⟩
  | dateTime t => exact ⟨trivial, trivial⟩
  | time t => exact ⟨trivial, trivial⟩

theorem Lock.readable_encode (l : Lock) : l.encode.Readable := by
  cases l with
  | default => trivial
  | hint text => exact ⟨trivial, trivial⟩

namespace Select

mutual

theorem readable_fold : ∀ s : Select, (s.fold SelectBody.encode).Readable
  | .of ⟨cores, orders, limit, offset, _⟩ =>
    ⟨readable_foldCores cores, readable_foldKeys orders, readable_foldOption limit,
      readable_foldOption offset, readable_ofOption fun l => l.readable_encode, trivial⟩

theorem readable_foldCores : ∀ cs : List (Core Select),
    ReadableItems ((foldCores SelectBody.encode cs).map Core.encode)
  | [] => trivial
  | ⟨projections, source, wheres, groups, having, distinct⟩ :: cs =>
    ⟨⟨readable_foldList projections, readable_foldSourceOption source, readable_foldList wheres,
      readable_foldList groups, readable_foldOption having, by cases distinct <;> trivial, trivial⟩,
      readable_foldCores cs⟩

theorem readable_foldKeys : ∀ ks : List (SortKey Select),
    ReadableItems ((foldKeys SelectBody.encode ks).map SortKey.encode)
  | [] => trivial
  | ⟨e, _⟩ :: ks => ⟨⟨readable_foldExpr e, trivial, trivial⟩, readable_foldKeys ks⟩

theorem readable_foldSourceOption : ∀ s : Option (Source Select),
    (Json.ofOption Source.encode (foldSourceOption SelectBody.encode s)).Readable
  | none => trivial
  | some s => readable_foldSource s

theorem readable_foldSource : ∀ s : Source Select, (foldSource SelectBody.encode s).encode.Readable
  | .table t => ⟨t.readable_encode, trivial⟩
  | .join _ left right condition =>
    ⟨⟨trivial, readable_foldSource left, readable_foldSource right, readable_foldOption condition,
      trivial⟩, trivial⟩
  | .raw _ => ⟨trivial, trivial⟩

theorem readable_foldOption : ∀ e : Option (Expr Select),
    (Json.ofOption Expr.encode (foldOption SelectBody.encode e)).Readable
  | none => trivial
  | some e => readable_foldExpr e

theorem readable_foldList : ∀ es : List (Expr Select),
    ReadableItems (Expr.encodeList (foldList SelectBody.encode es))
  | [] => trivial
  | e :: es => ⟨readable_foldExpr e, readable_foldList es⟩

theorem readable_foldExpr : ∀ e : Expr Select, (foldExpr SelectBody.encode e).encode.Readable
  | .column c => ⟨c.readable_encode, trivial⟩
  | .wildcard _ => ⟨⟨readable_ofOption fun _ => trivial, trivial⟩, trivial⟩
  | .literal v => ⟨v.readable_encode, trivial⟩
  | .typed v _ => ⟨⟨v.readable_encode, trivial, trivial⟩, trivial⟩
  | .aggregate _ args _ => ⟨⟨trivial, readable_foldList args, trivial, trivial⟩, trivial⟩
  | .call _ args => ⟨⟨trivial, readable_foldList args, trivial⟩, trivial⟩
  | .alias e _ => ⟨⟨readable_foldExpr e, trivial, trivial⟩, trivial⟩
  | .distinct e => ⟨readable_foldExpr e, trivial⟩
  | .binary l _ r => ⟨⟨readable_foldExpr l, trivial, readable_foldExpr r, trivial⟩, trivial⟩
  | .not e => ⟨readable_foldExpr e, trivial⟩
  | .isNull e _ => ⟨⟨readable_foldExpr e, trivial, trivial⟩, trivial⟩
  | .inList e es _ =>
    ⟨⟨readable_foldExpr e, readable_foldList es, trivial, trivial⟩, trivial⟩
  | .inSubquery e q _ => ⟨⟨readable_foldExpr e, readable_fold q, trivial, trivial⟩, trivial⟩
  | .grouping e => ⟨readable_foldExpr e, trivial⟩
  | .caseSensitive e => ⟨readable_foldExpr e, trivial⟩
  | .raw _ => ⟨trivial, trivial⟩

end

end Select

theorem Expr.readable_toJson (e : Expr Select) : e.toJson.Readable := by
  have h := Select.readable_foldExpr e
  rwa [Select.foldExpr_eq] at h

theorem Update.readable_encode (u : Update) : u.encode.Readable := by
  refine ⟨u.table.readable_encode, (readableItems_iff _).2 ?_, (readableItems_iff _).2 ?_,
    (readableItems_iff _).2 ?_, readable_ofOption Expr.readable_toJson,
    readable_ofOption ColumnRef.readable_encode, trivial⟩
  · intro j hj
    obtain ⟨v, -, rfl⟩ := List.mem_map.1 hj
    exact ⟨v.1.readable_encode, v.2.readable_toJson, trivial⟩
  · intro j hj
    obtain ⟨e, -, rfl⟩ := List.mem_map.1 hj
    exact e.readable_toJson
  · intro j hj
    obtain ⟨k, -, rfl⟩ := List.mem_map.1 hj
    exact ⟨k.expr.readable_toJson, trivial, trivial⟩

theorem Statement.readable_encode (s : Statement) : s.encode.Readable := by
  cases s with
  | select s => exact ⟨Select.readable_fold s, trivial⟩
  | update u => exact ⟨u.readable_encode, trivial⟩

/-! ## The round trip -/

namespace Statement

theorem decode_encode (s : Statement) :
    decode s.encode = if s.encode.nesting ≤ 127 then .ok s else .error .malformed :=
  Decoder.returns_statement (show maxOpen < depth by decide) s

/-- What is written for a statement is read as the statement with its doubles reread, unless too
many brackets are open at once. -/
theorem ofText_toText_eq (s : Statement) :
    ofText s.toText = if openPeak s.toText ≤ 127 then .ok s.reread else .error .malformed := by
  have hpeak : openPeak s.toText = s.encode.nesting := openPeak_write s.readable_encode
  have hread : Json.read? s.toText = some s.reread.encode :=
    s.encode_reread ▸ read?_write s.readable_encode
  have hnesting : s.reread.encode.nesting = s.encode.nesting := by
    rw [encode_reread, nesting_mapFloats]
  rw [ofText, hread, hpeak, ← hnesting]
  exact s.reread.decode_encode

/-- A statement stays when its doubles are reread, exactly when each of them is read from its own
text. That the encoding tells statements apart is known where it can be decoded. -/
theorem reread_eq_self_iff {s : Statement} (h : openPeak s.toText ≤ 127) :
    s.reread = s ↔ ∀ x ∈ s.floats, x.reread = x := by
  rw [floats, ← mapFloats_eq_self_iff, ← encode_reread]
  refine ⟨congrArg encode, fun hencode => ?_⟩
  have hnesting : s.encode.nesting ≤ 127 := openPeak_write s.readable_encode ▸ h
  have hdecode := s.reread.decode_encode
  rw [hencode, decode_encode, if_pos hnesting, if_pos hnesting] at hdecode
  exact (Except.ok.inj hdecode).symm

/-- **A statement is read from its text** when no more than 127 brackets are open at once in the
text, and refused with its code when there are more. Its doubles are read again, so that the
statement itself is read exactly when each of them is read from its own text. -/
theorem ofText_toText (s : Statement) :
    ((openPeak s.toText ≤ 127 ∧ ofText s.toText = .ok s.reread) ∨
      (127 < openPeak s.toText ∧ ∃ e, ofText s.toText = .error e ∧ e.code = "E0002")) ∧
    (ofText s.toText = .ok s ↔ openPeak s.toText ≤ 127 ∧ ∀ x ∈ s.floats, x.reread = x) := by
  rw [ofText_toText_eq]
  by_cases hfits : openPeak s.toText ≤ 127
  · rw [if_pos hfits]
    refine ⟨.inl ⟨hfits, rfl⟩, ?_⟩
    rw [← reread_eq_self_iff hfits, Except.ok.injEq]
    exact (and_iff_right hfits).symm
  · rw [if_neg hfits]
    refine ⟨.inr ⟨by omega, .malformed, rfl, rfl⟩, ?_⟩
    exact ⟨nofun, fun h => absurd h.1 hfits⟩

end Statement

end Transact
