import Transact.Codec.Decode
import Transact.Proofs.Codec.Acceptance
import Transact.Proofs.Codec.RoundTrip
import Transact.Proofs.Codec.StatementForm

/-!
# The texts of a statement

A statement has many JSON texts: fields in any order, unknown fields with any values, records as
arrays, variants with an empty payload, blanks, escapes and numbers in every spelling.
`Statement.HasText` says which they are; the characters of unknown values are marked as hidden.

* `Decoder.accepts_expr`, `accepts_source`, `accepts_selectWithin`, `accepts_statement`: the
  decoders accept exactly the values that fit the form of what they give.
* `Statement.ofText_eq_ok_iff`: a text is read as a statement exactly when it is a text of that
  statement in which at most 127 brackets are open at once, hidden values left out.
* `Statement.toText_stable`: what is read and written again is stable, as far as its doubles are,
  and nests no deeper.
* `Statement.ofText_of_any_text`: a statement is read from each of its texts, with its doubles as
  these are read.
-/

set_option autoImplicit false

namespace Transact

open Json Number
open Json.Decoder (Payload)
open Json.Marked (shown hidden)
open Json.Record (field optional builds_field builds_optional)

/-! ## Leaves -/

namespace Json.Decoder

theorem accepts_columnType (room : Nat) : columnType.Accepts room fun ty => .name ty.tag :=
  accepts_named room fun ty => by cases ty <;> rfl

theorem accepts_aggregateFn (room : Nat) : aggregateFn.Accepts room fun fn => .name fn.tag :=
  accepts_named room fun fn => by cases fn <;> rfl

theorem accepts_binaryOp (room : Nat) : binaryOp.Accepts room fun op => .name op.tag :=
  accepts_named room fun op => by cases op <;> rfl

theorem accepts_direction (room : Nat) : direction.Accepts room fun d => .name d.tag :=
  accepts_named room fun d => by cases d <;> rfl

theorem accepts_joinKind (room : Nat) : joinKind.Accepts room fun kind => .name kind.tag :=
  accepts_named room fun kind => by cases kind <;> rfl

theorem accepts_quantifier (room : Nat) : quantifier.Accepts room fun _ => .name "Distinct" :=
  accepts_variants (by simp [Payload.Sound]) fun _ => .inl ⟨_, rfl, rfl⟩

theorem accepts_columnRef (room : Nat) : columnRef.Accepts room ColumnRef.form := by
  have h : ∀ k < room, _ := fun k _ =>
    ((builds_optional "table" (accepts_string k) (by simp)).map ColumnRef.mk).seq
      (builds_field "name" (accepts_string k) (by simp))
  exact (Record.Builds.decoder h (by simp) _).accepts (fun _ => rfl) fun c =>
    ⟨(((), c.table), c.name), rfl⟩

theorem accepts_tableRef (room : Nat) : tableRef.Accepts room TableRef.form := by
  have h : ∀ k < room, _ := fun k _ =>
    (((((builds_field "name" (accepts_string k) (by simp)).map TableRef.mk).seq
      (builds_optional "schema" (accepts_string k) (by simp))).seq
      (builds_optional "alias" (accepts_string k) (by simp))).seq
      (builds_optional "primary_key" (accepts_string k) (by simp))).seq
      (builds_field "columns" (accepts_list fun r _ => accepts_string r) (by simp))
  exact (Record.Builds.decoder h (by simp) _).accepts (fun _ => rfl) fun t =>
    ⟨((((((), t.name), t.schema), t.aliasName), t.primaryKey), t.columns), rfl⟩

theorem accepts_lock (room : Nat) : lock.Accepts room Lock.form := by
  have hhint : ∀ k < room, _ := fun k _ => (accepts_string k).map Lock.hint
  refine accepts_variants ?_ fun l => ?_
  · simp only [List.forall_mem_cons, List.not_mem_nil, false_implies, implies_true, and_true]
    exact ⟨rfl, sound_of_builds hhint (fun _ => rfl) (.inl rfl)⟩
  · cases l with
    | default => exact .inl ⟨_, rfl, rfl⟩
    | hint text => exact found_of_builds hhint text rfl rfl (.inl rfl)

theorem accepts_literal (room : Nat) : literal.Accepts room Literal.form := by
  have hboolean : ∀ k < room, _ := fun k _ => (accepts_bool k).map Literal.boolean
  have hinteger : ∀ k < room, _ := fun k _ => (accepts_int64 k).map Literal.integer
  have hfloat : ∀ k < room, _ := fun k _ => (accepts_float k).map Literal.float
  have hstring : ∀ k < room, _ := fun k _ => (accepts_string k).map Literal.string
  have hdate : ∀ k < room, _ := fun k _ =>
    (accepts_reading Calendar.Date.read_text "a formatted date string" k).map Literal.date
  have hdateTime : ∀ k < room, _ := fun k _ =>
    (accepts_reading Calendar.Timestamp.read_exactText "a formatted date and time string" k).map
      Literal.dateTime
  have htime : ∀ k < room, _ := fun k _ =>
    (accepts_reading Calendar.TimeOfDay.read_exactText "a formatted time string" k).map Literal.time
  have hbinary : ∀ k < room, _ := fun k _ =>
    (accepts_list fun r (_ : r < k) => accepts_byte r).map Literal.binary
  refine accepts_variants ?_ fun v => ?_
  · simp only [List.forall_mem_cons, List.not_mem_nil, false_implies, implies_true, and_true]
    exact ⟨rfl, sound_of_builds hboolean (fun _ => rfl) (.inl rfl),
      sound_of_builds hinteger (fun _ => rfl) (.inl rfl),
      sound_of_builds hfloat (fun _ => rfl) (.inl rfl),
      sound_of_builds hstring (fun _ => rfl) (.inl rfl),
      sound_of_builds hdate (fun _ => rfl) (.inl rfl),
      sound_of_builds hdateTime (fun _ => rfl) (.inl rfl),
      sound_of_builds htime (fun _ => rfl) (.inl rfl),
      sound_of_builds hbinary (fun _ => rfl) (.inl rfl)⟩
  · cases v with
    | null => exact .inl ⟨_, rfl, rfl⟩
    | boolean b => exact found_of_builds hboolean b rfl rfl (.inl rfl)
    | integer i => exact found_of_builds hinteger i rfl rfl (.inl rfl)
    | float x => exact found_of_builds hfloat x rfl rfl (.inl rfl)
    | string s => exact found_of_builds hstring s rfl rfl (.inl rfl)
    | date d => exact found_of_builds hdate d rfl rfl (.inl rfl)
    | dateTime t => exact found_of_builds hdateTime t rfl rfl (.inl rfl)
    | time t => exact found_of_builds htime t rfl rfl (.inl rfl)
    | binary bytes => exact found_of_builds hbinary bytes rfl rfl (.inl rfl)

/-! ## Expressions -/

section

variable {σ : Type} {form : σ → Form}

theorem formList_mapList (es : List (Expr σ)) :
    Expr.formList (Expr.mapList form es) = es.map fun e => (e.map form).form := by
  induction es with
  | nil => rfl
  | cons e es ih => rw [Expr.mapList, Expr.formList, ih, List.map_cons]

theorem literal_ne_absent (v : Literal) : v.form ≠ .absent := by
  cases v <;> exact Form.noConfusion

theorem expr_ne_absent (e : Expr Form) : e.form ≠ .absent := by
  cases e <;> exact Form.noConfusion

theorem source_ne_absent (s : Source Form) : s.form ≠ .absent := by
  cases s <;> exact Form.noConfusion

theorem lock_ne_absent (l : Lock) : l.form ≠ .absent := by
  cases l <;> exact Form.noConfusion

/-- Expressions are accepted when their subqueries are. Every step down into an expression opens a
bracket, so that the induction is on the steps left. -/
theorem accepts_expr {sub : Decoder σ} {bound : Nat} (hsub : ∀ r < bound, sub.Accepts r form)
    (hform : ∀ q, form q ≠ .absent) : ∀ (n room : Nat), room < n → room ≤ bound →
      (expr sub n).Accepts room fun e => (e.map form).form
  | 0, _, hn, _ => absurd hn (Nat.not_lt_zero _)
  | n + 1, room, hn, hbound => by
    have he : ∀ r < room, (expr sub n).Accepts r fun e => (e.map form).form :=
      fun r hr => accepts_expr hsub hform n r (by omega) (by omega)
    have hne : ∀ e : Expr σ, (e.map form).form ≠ .absent := fun e => expr_ne_absent _
    have hlist : ∀ r < room, (list (expr sub n)).Accepts r fun es =>
        .list (Expr.formList (Expr.mapList form es)) := by
      intro r hr
      simp only [formList_mapList]
      exact accepts_list fun s hs => he s (by omega)
    have hcolumn : ∀ k < room, _ := fun k _ => (accepts_columnRef k).map (@Expr.column σ)
    have hwildcard : ∀ k < room, _ := fun k _ => Record.Builds.decoder (fun s (_ : s < k) =>
      (builds_optional "table" (accepts_string s) (by simp)).map (@Expr.wildcard σ)) (by simp)
      "struct variant Expr::Wildcard"
    have hliteral : ∀ k < room, _ := fun k _ => (accepts_literal k).map (@Expr.literal σ)
    have htyped : ∀ k < room, _ := fun k _ => Record.Builds.decoder (fun s (_ : s < k) =>
      ((builds_field "value" (accepts_literal s) literal_ne_absent).map (@Expr.typed σ)).seq
        (builds_field "ty" (accepts_columnType s) (by simp))) (by simp)
      "struct variant Expr::Typed"
    have haggregate : ∀ k < room, _ := fun k hk => Record.Builds.decoder (fun s (hs : s < k) =>
      (((builds_field "func" (accepts_aggregateFn s) (by simp)).map (@Expr.aggregate σ)).seq
        (builds_field "args" (hlist s (by omega)) (by simp))).seq
        (builds_field "distinct" (accepts_bool s) (by simp))) (by simp)
      "struct variant Expr::Aggregate"
    have hcall : ∀ k < room, _ := fun k hk => Record.Builds.decoder (fun s (hs : s < k) =>
      ((builds_field "name" (accepts_string s) (by simp)).map (@Expr.call σ)).seq
        (builds_field "args" (hlist s (by omega)) (by simp))) (by simp)
      "struct variant Expr::Function"
    have halias : ∀ k < room, _ := fun k hk => Record.Builds.decoder (fun s (hs : s < k) =>
      ((builds_field "expr" (he s (by omega)) hne).map (@Expr.alias σ)).seq
        (builds_field "alias" (accepts_string s) (by simp))) (by simp)
      "struct variant Expr::Alias"
    have hdistinct : ∀ k < room, _ := fun k hk => (he k hk).map Expr.distinct
    have hbinary : ∀ k < room, _ := fun k hk => Record.Builds.decoder (fun s (hs : s < k) =>
      (((builds_field "left" (he s (by omega)) hne).map (@Expr.binary σ)).seq
        (builds_field "op" (accepts_binaryOp s) (by simp))).seq
        (builds_field "right" (he s (by omega)) hne)) (by simp)
      "struct variant Expr::Binary"
    have hnot : ∀ k < room, _ := fun k hk => (he k hk).map Expr.not
    have hisNull : ∀ k < room, _ := fun k hk => Record.Builds.decoder (fun s (hs : s < k) =>
      ((builds_field "expr" (he s (by omega)) hne).map (@Expr.isNull σ)).seq
        (builds_field "negated" (accepts_bool s) (by simp))) (by simp)
      "struct variant Expr::IsNull"
    have hinList : ∀ k < room, _ := fun k hk => Record.Builds.decoder (fun s (hs : s < k) =>
      (((builds_field "expr" (he s (by omega)) hne).map (@Expr.inList σ)).seq
        (builds_field "list" (hlist s (by omega)) (by simp))).seq
        (builds_field "negated" (accepts_bool s) (by simp))) (by simp)
      "struct variant Expr::InList"
    have hinSubquery : ∀ k < room, _ := fun k hk => Record.Builds.decoder (fun s (hs : s < k) =>
      (((builds_field "expr" (he s (by omega)) hne).map (@Expr.inSubquery σ)).seq
        (builds_field "subquery" (hsub s (by omega)) hform)).seq
        (builds_field "negated" (accepts_bool s) (by simp))) (by simp)
      "struct variant Expr::InSubquery"
    have hgrouping : ∀ k < room, _ := fun k hk => (he k hk).map Expr.grouping
    have hcaseSensitive : ∀ k < room, _ := fun k hk => (he k hk).map Expr.caseSensitive
    have hraw : ∀ k < room, _ := fun k _ => (accepts_string k).map (@Expr.raw σ)
    refine accepts_variants ?_ fun e => ?_
    · simp only [List.forall_mem_cons, List.not_mem_nil, false_implies, implies_true, and_true]
      exact ⟨sound_of_builds hcolumn (fun _ => rfl) (.inl rfl),
        sound_of_builds hwildcard (fun _ => rfl) (.inr rfl),
        sound_of_builds hliteral (fun _ => rfl) (.inl rfl),
        sound_of_builds htyped (fun _ => rfl) (.inr rfl),
        sound_of_builds haggregate (fun _ => rfl) (.inr rfl),
        sound_of_builds hcall (fun _ => rfl) (.inr rfl),
        sound_of_builds halias (fun _ => rfl) (.inr rfl),
        sound_of_builds hdistinct (fun _ => rfl) (.inl rfl),
        sound_of_builds hbinary (fun _ => rfl) (.inr rfl),
        sound_of_builds hnot (fun _ => rfl) (.inl rfl),
        sound_of_builds hisNull (fun _ => rfl) (.inr rfl),
        sound_of_builds hinList (fun _ => rfl) (.inr rfl),
        sound_of_builds hinSubquery (fun _ => rfl) (.inr rfl),
        sound_of_builds hgrouping (fun _ => rfl) (.inl rfl),
        sound_of_builds hcaseSensitive (fun _ => rfl) (.inl rfl),
        sound_of_builds hraw (fun _ => rfl) (.inl rfl)⟩
    · cases e with
      | column c => exact found_of_builds hcolumn c rfl rfl (.inl rfl)
      | wildcard table => exact found_of_builds hwildcard ((), table) rfl rfl (.inr rfl)
      | literal v => exact found_of_builds hliteral v rfl rfl (.inl rfl)
      | typed v ty => exact found_of_builds htyped (((), v), ty) rfl rfl (.inr rfl)
      | aggregate fn args d =>
        exact found_of_builds haggregate ((((), fn), args), d) rfl rfl (.inr rfl)
      | call name args => exact found_of_builds hcall (((), name), args) rfl rfl (.inr rfl)
      | «alias» e name => exact found_of_builds halias (((), e), name) rfl rfl (.inr rfl)
      | distinct e => exact found_of_builds hdistinct e rfl rfl (.inl rfl)
      | binary left op right =>
        exact found_of_builds hbinary ((((), left), op), right) rfl rfl (.inr rfl)
      | not e => exact found_of_builds hnot e rfl rfl (.inl rfl)
      | isNull e negated => exact found_of_builds hisNull (((), e), negated) rfl rfl (.inr rfl)
      | inList e es negated =>
        exact found_of_builds hinList ((((), e), es), negated) rfl rfl (.inr rfl)
      | inSubquery e query negated =>
        exact found_of_builds hinSubquery ((((), e), query), negated) rfl rfl (.inr rfl)
      | grouping e => exact found_of_builds hgrouping e rfl rfl (.inl rfl)
      | caseSensitive e => exact found_of_builds hcaseSensitive e rfl rfl (.inl rfl)
      | raw text => exact found_of_builds hraw text rfl rfl (.inl rfl)

/-! ## Sources, sort keys and levels -/

/-- A part that may be absent, whose subqueries are given their forms before it is. -/
theorem builds_optionalMap {α β : Type} {f : β → Form} {g : α → β} {d : Decoder α} {room : Nat}
    (key : String) (h : d.Accepts room fun a => f (g a)) (hf : ∀ b, f b ≠ .absent) :
    (optional key d).Builds room id fun o => [(key, Form.ofOption f (o.map g))] := by
  have heq : (fun o : Option α => [(key, Form.ofOption f (o.map g))]) =
      fun o => [(key, Form.ofOption (fun a => f (g a)) o)] := by
    funext o
    cases o <;> rfl
  rw [heq]
  exact builds_optional key h fun a => hf (g a)

section

variable {e : Decoder (Expr σ)}

theorem accepts_exprs {room : Nat} (he : ∀ r < room, e.Accepts r fun x => (x.map form).form) :
    (list e).Accepts room fun xs => .list (Expr.formList (xs.map (·.map form))) := by
  simp only [← Expr.mapList_eq, formList_mapList]
  exact accepts_list he

theorem accepts_source {bound : Nat} (he : ∀ r < bound, e.Accepts r fun x => (x.map form).form) :
    ∀ (n room : Nat), room < n → room ≤ bound →
      (source e n).Accepts room fun s => (s.map form).form
  | 0, _, hn, _ => absurd hn (Nat.not_lt_zero _)
  | n + 1, room, hn, hbound => by
    have hs : ∀ r < room, (source e n).Accepts r fun s => (s.map form).form :=
      fun r hr => accepts_source he n r (by omega) (by omega)
    have hne : ∀ s : Source σ, (s.map form).form ≠ .absent := fun s => source_ne_absent _
    have htable : ∀ k < room, _ := fun k _ => (accepts_tableRef k).map (@Source.table σ)
    have hjoin : ∀ k < room, _ := fun k hk => Record.Builds.decoder (fun s (_ : s < k) =>
      ((((builds_field "kind" (accepts_joinKind s) (by simp)).map (@Source.join σ)).seq
        (builds_field "left" (hs s (by omega)) hne)).seq
        (builds_field "right" (hs s (by omega)) hne)).seq
        (builds_optionalMap "on" (he s (by omega)) expr_ne_absent)) (by simp) "struct Join"
    have hraw : ∀ k < room, _ := fun k _ => (accepts_string k).map (@Source.raw σ)
    refine accepts_variants ?_ fun s => ?_
    · simp only [List.forall_mem_cons, List.not_mem_nil, false_implies, implies_true, and_true]
      exact ⟨sound_of_builds htable (fun _ => rfl) (.inl rfl),
        sound_of_builds hjoin (fun _ => rfl) (.inl rfl),
        sound_of_builds hraw (fun _ => rfl) (.inl rfl)⟩
    · cases s with
      | table t => exact found_of_builds htable t rfl rfl (.inl rfl)
      | join kind left right condition =>
        exact found_of_builds hjoin (((((), kind), left), right), condition) rfl rfl (.inl rfl)
      | raw text => exact found_of_builds hraw text rfl rfl (.inl rfl)

variable {room : Nat} (he : ∀ r < room, e.Accepts r fun x => (x.map form).form)

include he

theorem accepts_sortKey : (sortKey e).Accepts room fun k => (k.map form).form := by
  have h : ∀ s < room, _ := fun s hs =>
    ((builds_field "expr" (he s hs) fun _ => expr_ne_absent _).map (@SortKey.mk σ)).seq
      (builds_field "direction" (accepts_direction s) (by simp))
  exact (Record.Builds.decoder h (by simp) _).accepts (fun _ => rfl) fun k =>
    ⟨(((), k.expr), k.direction), rfl⟩

theorem accepts_core (hroom : room ≤ depth) : (core e).Accepts room fun c => (c.map form).form := by
  have h : ∀ s < room, _ := fun s hs => by
    have hexprs := accepts_exprs fun r (hr : r < s) => he r (by omega)
    have hsource := accepts_source he depth s (by omega) (by omega)
    exact ((((((builds_field "projections" hexprs (by simp)).map (@Core.mk σ)).seq
      (builds_optionalMap "source" hsource source_ne_absent)).seq
      (builds_field "wheres" hexprs (by simp))).seq
      (builds_field "groups" hexprs (by simp))).seq
      (builds_optionalMap "having" (he s hs) expr_ne_absent)).seq
      ((builds_optional "set_quantifier" (accepts_quantifier s) (by simp)).map Option.isSome)
  refine (Record.Builds.decoder h (by simp) _).accepts ?_ fun c => ?_
  · rintro ⟨_, _, _ | _⟩ <;> rfl
  · refine ⟨(((((((), c.projections), c.source), c.wheres), c.groups), c.having), (),
      if c.distinct then some () else none), ?_⟩
    obtain ⟨_, _, _, _, _, _ | _⟩ := c <;> rfl

theorem accepts_selectBody (hroom : room ≤ depth) :
    (selectBody e).Accepts room fun b => (b.map form).form := by
  have h : ∀ s < room, _ := fun s hs => by
    have hcores : (list (core e)).Accepts s fun cs =>
        .list ((cs.map (·.map form)).map Core.form) := by
      simp only [List.map_map]
      exact accepts_list fun r hr => accepts_core (fun q hq => he q (by omega)) (by omega)
    have horders : (list (sortKey e)).Accepts s fun ks =>
        .list ((ks.map (·.map form)).map SortKey.form) := by
      simp only [List.map_map]
      exact accepts_list fun r hr => accepts_sortKey fun q hq => he q (by omega)
    exact (((((builds_field "cores" hcores (by simp)).map (@SelectBody.mk σ)).seq
      (builds_field "orders" horders (by simp))).seq
      (builds_optionalMap "limit" (he s hs) expr_ne_absent)).seq
      (builds_optionalMap "offset" (he s hs) expr_ne_absent)).seq
      (builds_optional "lock" (accepts_lock s) lock_ne_absent)
  exact (Record.Builds.decoder h (by simp) _).accepts (fun _ => rfl) fun b =>
    ⟨((((((), b.cores), b.orders), b.limit), b.offset), b.lock), rfl⟩

end

end

/-! ## Statements -/

theorem select_ne_absent (s : Select) : s.form ≠ .absent := by
  obtain ⟨b⟩ := s
  rw [Select.form, Select.fold_of]
  exact Form.noConfusion

theorem accepts_selectWithin : ∀ (n room : Nat), room < n → room < depth →
    (selectWithin n).Accepts room Select.form
  | 0, _, hn, _ => absurd hn (Nat.not_lt_zero _)
  | n + 1, room, hn, hroom => by
    have hsub : ∀ r < room, (selectWithin n).Accepts r Select.form :=
      fun r hr => accepts_selectWithin n r (by omega) (by omega)
    have hbody := accepts_selectBody
      (fun r hr => accepts_expr hsub select_ne_absent depth r (by omega) (by omega)) hroom.le
    exact (hbody.map Select.of).accepts (fun b => Select.fold_of SelectBody.form b)
      fun s => ⟨s.body, by cases s; rfl⟩

section

variable {room : Nat} (hroom : room < depth)

include hroom

theorem accepts_statementExpr :
    statementExpr.Accepts room fun e => (e.map Select.form).form :=
  accepts_expr (fun r hr => accepts_selectWithin depth r (by omega) (by omega)) select_ne_absent
    depth room hroom (Nat.le_refl room)

theorem accepts_update : update.Accepts room Update.form := by
  have h : ∀ s < room, _ := fun s hs => by
    have he : ∀ r ≤ s, statementExpr.Accepts r fun e => (e.map Select.form).form :=
      fun r hr => accepts_statementExpr (by omega)
    exact ((((((builds_field "relation" (accepts_tableRef s) (by simp [TableRef.form])).map
      Update.mk).seq
      (builds_field "values" (accepts_list fun r (hr : r < s) =>
        accepts_pair (fun q _ => accepts_columnRef q) fun q hq => he q (by omega)) (by simp))).seq
      (builds_field "wheres" (accepts_list fun r (hr : r < s) => he r hr.le) (by simp))).seq
      (builds_field "orders" (accepts_list fun r (hr : r < s) =>
        accepts_sortKey fun q hq => he q (by omega)) (by simp))).seq
      (builds_optional "limit" (he s (Nat.le_refl s)) fun _ => expr_ne_absent _)).seq
      (builds_optional "key" (accepts_columnRef s) (by simp [ColumnRef.form]))
  exact (Record.Builds.decoder h (by simp) _).accepts (fun _ => rfl) fun u =>
    ⟨(((((((), u.table), u.values), u.wheres), u.orders), u.limit), u.key), rfl⟩

/-- A statement is decoded exactly from the values that fit its form. -/
theorem accepts_statement : statement.Accepts room Statement.form := by
  have hselect : ∀ k < room, _ := fun k hk =>
    (accepts_selectWithin depth k (by omega) (by omega)).map Statement.select
  have hupdate : ∀ k < room, _ := fun k hk =>
    (accepts_update (show k < depth by omega)).map Statement.update
  refine accepts_variants ?_ fun s => ?_
  · simp only [List.forall_mem_cons, List.not_mem_nil, false_implies, implies_true, and_true]
    exact ⟨sound_of_builds hselect (fun _ => rfl) (.inl rfl),
      sound_of_builds hupdate (fun _ => rfl) (.inl rfl)⟩
  · cases s with
    | select s => exact found_of_builds hselect s rfl rfl (.inl rfl)
    | update u => exact found_of_builds hupdate u rfl rfl (.inl rfl)

end

end Json.Decoder

/-! ## Texts -/

namespace Statement

/-- The marked text is one of the statement: it spells out an outline of its form, and blanks may
follow. -/
def HasText (s : Statement) (m : Marked) : Prop :=
  ∃ (v : Json) (front : Marked) (b : List Char),
    s.form.Admits v ∧ Spelled v front ∧ Blank b ∧ m = front ++ shown b

theorem HasText.openPeak_toText_le {s : Statement} {m : Marked} (h : s.HasText m) :
    openPeak s.toText ≤ openPeak (String.ofList m.visible) := by
  obtain ⟨v, front, b, hv, hfront, hb, rfl⟩ := h
  rw [openPeak_visible hfront hb, toText, openPeak_write s.readable_encode, ← s.json_form]
  exact Form.nesting_json_le hv

/-- What is written for a statement is a text of the statement with its doubles reread. -/
theorem hasText_toText (s : Statement) : s.reread.HasText (shown s.toText.toList) :=
  ⟨s.reread.encode, _, [], s.reread.json_form ▸ s.reread.form.admits_json,
    s.encode_reread ▸ spelled_write _ s.readable_encode, blank_nil, by simp [toText]⟩

theorem openPeak_toText_reread (s : Statement) : openPeak s.reread.toText = openPeak s.toText := by
  rw [toText, toText, openPeak_write s.reread.readable_encode, openPeak_write s.readable_encode,
    encode_reread, nesting_mapFloats]

/-- A text is read as a statement exactly when it is a text of that statement, with no more than 127
brackets open at once outside of hidden values. -/
theorem ofText_eq_ok_iff {t : String} {s : Statement} : ofText t = .ok s ↔
    ∃ m : Marked, m.text = t.toList ∧ s.HasText m ∧ openPeak (String.ofList m.visible) ≤ 127 := by
  have haccepts : Decoder.statement.Accepts 127 form := Decoder.accepts_statement (by decide)
  constructor
  · intro h
    unfold ofText at h
    split at h
    · rename_i j hread
      obtain ⟨v, hv, hcovers, hnesting⟩ := (haccepts j s).1 h
      obtain ⟨front, b, ht, hfront, hb⟩ := spelled_of_read? hread hcovers
      refine ⟨front ++ shown b, by simp [ht], ⟨v, front, b, hv, hfront, hb, rfl⟩, ?_⟩
      rwa [openPeak_visible hfront hb]
    · cases h
  · rintro ⟨m, ht, ⟨v, front, b, hv, hfront, hb, rfl⟩, hpeak⟩
    obtain ⟨j, hcovers, hread⟩ := read?_of_spelled hfront hb
    rw [openPeak_visible hfront hb] at hpeak
    have htext : String.ofList (front.text ++ b) = t := by
      rw [Marked.text_append, Marked.text_shown] at ht
      rw [ht, String.ofList_toList]
    rw [htext] at hread
    rw [ofText, hread]
    exact (haccepts j s).2 ⟨v, hv, hcovers, hpeak⟩

/-! ## A text in another notation -/

/-- The double `100`. -/
def hundred : Binary64 :=
  ⟨false, 7036874417766400, -46, by decide, by decide, by decide, .inr (by decide)⟩

/-- The double before it, which is written as `99.99999999999999`. -/
def almostHundred : Binary64 :=
  ⟨false, 7036874417766399, -46, by decide, by decide, by decide, .inr (by decide)⟩

theorem reread_hundred : hundred.reread = hundred :=
  reread_eq_self (by decide +kernel) (by decide +kernel)

/-- The second rounding leads to the next double. -/
theorem reread_almostHundred : almostHundred.reread = hundred := by decide +kernel

/-- A select with a double for its limit. -/
def limitedTo (x : Binary64) : Statement :=
  .select (.of { limit := some (.literal (.float x)), lock := some .default })

theorem floats_limitedTo (x : Binary64) : (limitedTo x).floats = [x] := rfl

theorem reread_limitedTo (x : Binary64) : (limitedTo x).reread = limitedTo x.reread := rfl

/-- A text with its fields in another order, an ignored value, a variant with an empty payload and
blanks. -/
def scrambled : Marked :=
  shown "\x7b\"Select\":\x7b\"x\":".toList ++ (hidden "[[ ]]".toList ++
    shown (",\"orders\":[],\"limit\":\x7b\"Literal\":\x7b\"Float\":99.99999999999999\x7d\x7d," ++
      "\"lock\":\x7b\"Default\":null\x7d,\"cores\":[]\x7d\x7d ").toList)

theorem text_scrambled : String.ofList scrambled.text =
    "\x7b\"Select\":\x7b\"x\":[[ ]],\"orders\":[]," ++
      "\"limit\":\x7b\"Literal\":\x7b\"Float\":99.99999999999999\x7d\x7d," ++
      "\"lock\":\x7b\"Default\":null\x7d,\"cores\":[]\x7d\x7d " := by
  simp only [scrambled, Marked.text_append, Marked.text_shown, Marked.text_hidden,
    ← String.toList_append, String.ofList_toList]
  rfl

theorem openPeak_scrambled : openPeak (String.ofList scrambled.visible) ≤ 127 := by
  decide +kernel

/-- The outline of that text. -/
def scrambledOutline : Json :=
  .object [("Select", .object [("x", .unreadable), ("orders", .array []),
    ("limit", .variant "Literal" (.variant "Float" (.float hundred))),
    ("lock", .object [("Default", .null)]), ("cores", .array [])])]

theorem admits_scrambledOutline : (limitedTo hundred).form.Admits scrambledOutline := by
  have hgiven : Form.AdmitsFields [("cores", .list []), ("orders", .list []),
      ("limit", .variant "Literal" (.variant "Float" (.float hundred))), ("offset", .absent),
      ("lock", .name "Default")]
      [("cores", .array []), ("orders", .array []),
        ("limit", .variant "Literal" (.variant "Float" (.float hundred))),
        ("lock", .object [("Default", .null)])] :=
    .cons (.list .nil) (.cons (.list .nil) (.cons (.variant (.variant (.float _)))
      (.leftOut (.cons (.emptyPayload _) .nil))))
  have hunknown : ∀ u ∈ [("x", Json.unreadable)],
      u.1 ∉ ["cores", "orders", "limit", "offset", "lock"] ∧ u.2 = .unreadable := by simp
  refine .variant (.byName hgiven hunknown ?_)
  exact (List.perm_append_singleton ("cores", _) [_, _, _, _]).trans
    ((List.perm_append_singleton ("x", _) [_, _, _]).symm.cons _)

theorem hasText_scrambled : (limitedTo hundred).HasText scrambled := by
  have hnumber : Denotes "99.99999999999999".toList (.float hundred) := by
    have hwritten : floatStyle.render almostHundred = "99.99999999999999" := by decide +kernel
    have h := denotes_render almostHundred
    rwa [hwritten, reread_almostHundred] at h
  have hlimit : Spelled (.variant "Literal" (.variant "Float" (.float hundred))) _ :=
    .object (.last (label_quoted "Literal")
      (.object (.last (label_quoted "Float") (.number hnumber) blank_nil)) blank_nil)
  have hlock : Spelled (.object [("Default", .null)]) _ :=
    .object (.last (label_quoted "Default") (.word (show ("null", Json.null) ∈ _ by simp))
      blank_nil)
  have hignored : Spelled .unreadable _ :=
    .ignored (.array (.last (.noItems (show Blank [' '] by simp [Blank, isSpace])) blank_nil))
  have hbody : Spelled (.object [("x", .unreadable), ("orders", .array []),
      ("limit", .variant "Literal" (.variant "Float" (.float hundred))),
      ("lock", .object [("Default", .null)]), ("cores", .array [])]) _ :=
    .object (.next (label_quoted "x") hignored blank_nil
      (.next (label_quoted "orders") (.noItems blank_nil) blank_nil
        (.next (label_quoted "limit") hlimit blank_nil
          (.next (label_quoted "lock") hlock blank_nil
            (.last (label_quoted "cores") (.noItems blank_nil) blank_nil)))))
  have hspelled : Spelled scrambledOutline _ :=
    .object (.last (label_quoted "Select") hbody blank_nil)
  exact ⟨_, _, [' '], admits_scrambledOutline, hspelled, by simp [Blank, isSpace],
    by decide +kernel⟩

/-! ## Stability -/

/-- What is read and written again is a stable form: its text never has more brackets open at once
than the text that was read has outside of ignored values, and it is read again. When each double is
read from its own text, it is read as the same statement, and writing that once more changes
nothing. -/
theorem toText_stable {t : String} {s : Statement} (h : ofText t = .ok s) :
    (∃ m : Marked, m.text = t.toList ∧ s.HasText m) ∧
      (∀ m : Marked, m.text = t.toList → s.HasText m →
        openPeak s.toText ≤ openPeak (String.ofList m.visible)) ∧
      ofText s.toText = .ok s.reread ∧
      ((∀ x ∈ s.floats, x.reread = x) →
        ofText s.toText = .ok s ∧ (ofText s.toText).map toText = .ok s.toText) := by
  obtain ⟨m, ht, hm, hpeak⟩ := ofText_eq_ok_iff.1 h
  have hfits : openPeak s.toText ≤ 127 := hm.openPeak_toText_le.trans hpeak
  have hread : ofText s.toText = .ok s.reread := by rw [ofText_toText_eq, if_pos hfits]
  refine ⟨⟨m, ht, hm⟩, fun _ _ hm => hm.openPeak_toText_le, hread, fun hfloats => ?_⟩
  rw [(reread_eq_self_iff hfits).2 hfloats] at hread
  rw [hread]
  exact ⟨rfl, rfl⟩

theorem toText_stable_scrambled :
    ofText ("\x7b\"Select\":\x7b\"x\":[[ ]],\"orders\":[]," ++
        "\"limit\":\x7b\"Literal\":\x7b\"Float\":99.99999999999999\x7d\x7d," ++
        "\"lock\":\x7b\"Default\":null\x7d,\"cores\":[]\x7d\x7d ") = .ok (limitedTo hundred) ∧
      openPeak (limitedTo hundred).toText ≤ openPeak (String.ofList scrambled.visible) ∧
      ofText (limitedTo hundred).toText = .ok (limitedTo hundred) := by
  have h := ofText_eq_ok_iff.2 ⟨scrambled, String.toList_ofList.symm, hasText_scrambled,
    openPeak_scrambled⟩
  obtain ⟨-, hpeak, -, hread⟩ := toText_stable h
  have hfloats : ∀ x ∈ (limitedTo hundred).floats, x.reread = x := by
    simpa [floats_limitedTo] using reread_hundred
  rw [text_scrambled] at h
  exact ⟨h, hpeak scrambled String.toList_ofList.symm hasText_scrambled, (hread hfloats).1⟩

/-! ## Notations -/

/-- **A statement is read from each of its notations** in which no more than 127 brackets are open
at once outside of ignored values, with its doubles as they are read from their own texts; what is
written for it is one of these notations. It is the same statement exactly when each of its doubles
is the same. -/
theorem ofText_of_any_text (s : Statement) :
    s.reread.HasText (shown s.toText.toList) ∧
      ∀ m : Marked, s.reread.HasText m → openPeak (String.ofList m.visible) ≤ 127 →
        ofText (String.ofList m.text) = .ok s.reread ∧
          (ofText (String.ofList m.text) = .ok s ↔ ∀ x ∈ s.floats, x.reread = x) := by
  refine ⟨s.hasText_toText, fun m hm hpeak => ?_⟩
  have hread : ofText (String.ofList m.text) = .ok s.reread :=
    ofText_eq_ok_iff.2 ⟨m, String.toList_ofList.symm, hm, hpeak⟩
  have hfits : openPeak s.toText ≤ 127 :=
    (s.openPeak_toText_reread ▸ hm.openPeak_toText_le).trans hpeak
  rw [hread, ← reread_eq_self_iff hfits]
  exact ⟨rfl, Except.ok.inj, congrArg Except.ok⟩

theorem ofText_scrambled :
    (limitedTo almostHundred).reread.HasText scrambled ∧
      openPeak (String.ofList scrambled.visible) ≤ 127 ∧
      ofText ("\x7b\"Select\":\x7b\"x\":[[ ]],\"orders\":[]," ++
        "\"limit\":\x7b\"Literal\":\x7b\"Float\":99.99999999999999\x7d\x7d," ++
        "\"lock\":\x7b\"Default\":null\x7d,\"cores\":[]\x7d\x7d ") = .ok (limitedTo hundred) := by
  have hreread : (limitedTo almostHundred).reread = limitedTo hundred := by
    rw [reread_limitedTo, reread_almostHundred]
  have hread := ((ofText_of_any_text (limitedTo almostHundred)).2 scrambled
    (hreread ▸ hasText_scrambled) openPeak_scrambled).1
  rw [text_scrambled, hreread] at hread
  exact ⟨hreread ▸ hasText_scrambled, openPeak_scrambled, hread⟩

/-- What is written for a statement need not be read as the statement. -/
theorem ofText_toText_almostHundred :
    (limitedTo almostHundred).toText = "\x7b\"Select\":\x7b\"cores\":[],\"orders\":[]," ++
        "\"limit\":\x7b\"Literal\":\x7b\"Float\":99.99999999999999\x7d\x7d," ++
        "\"offset\":null,\"lock\":\"Default\"\x7d\x7d" ∧
      openPeak (limitedTo almostHundred).toText ≤ 127 ∧
      ofText (limitedTo almostHundred).toText = .ok (limitedTo hundred) ∧
      limitedTo hundred ≠ limitedTo almostHundred := by
  have hpeak : openPeak (limitedTo almostHundred).toText ≤ 127 := by decide +kernel
  refine ⟨by decide +kernel, hpeak, ?_, fun h => ?_⟩
  · rw [ofText_toText_eq, if_pos hpeak, reread_limitedTo, reread_almostHundred]
  · have hfloats := congrArg floats h
    rw [floats_limitedTo, floats_limitedTo] at hfloats
    exact absurd hfloats (by decide)

end Statement

end Transact
