import Transact.Proofs.Composition
import Transact.Proofs.Limit
import Transact.Proofs.Repetition
import Transact.Proofs.Sql.Token

/-!
# The text of an update

An update that compiles has one of three texts. Main statement: `Update.sql_closed`.

* `Scope.Over`: a scope over compiled subqueries makes of an expression what the scope over the
  subqueries themselves does.
* `Update.keySelect_builds`: the select of the keys is always plain, with the limit, the conditions
  and the order of the update.
* `UpdateQuery.sql_eq`, `Update.keySelect_sql`: the texts of an update and of that select.
-/

set_option autoImplicit false

namespace Transact

open Text

/-! ## Texts of lists -/

namespace Scope

section

variable {σ : Type} (sc : Scope σ)

/-- The texts of expressions. -/
def texts? (es : List (Expr σ)) : Option (List String) := es.mapM sc.text?

/-- The texts of sort keys, with their directions. -/
def orderTexts? (ks : List (SortKey σ)) : Option (List String) :=
  ks.mapM fun k => (sc.text? k.expr).map fun text => text ++ " " ++ k.direction.keyword

/-- The texts of assignments. -/
def assignmentTexts? (values : List (ColumnRef × Expr σ)) : Option (List String) :=
  values.mapM fun v => (sc.text? v.2).map fun text => v.1.sql ++ " = " ++ text

variable {sc}

theorem texts?_of_exprs {es : List (Expr σ)} {es' : List (Expr Query)}
    (h : (sc.exprs es).result = .ok es') :
    sc.texts? es = some (es'.map (Expr.querySql sc.options.collation)) := by
  induction exprs_eq_ok.1 h with
  | nil => rfl
  | cons he hrest ih =>
    rw [texts?, List.mapM_cons, text?_eq_some.2 ⟨_, he, rfl⟩, ← texts?, ih (exprs_eq_ok.2 hrest)]
    rfl

theorem orderTexts?_of_keys : ∀ {ks : List (SortKey σ)} {ks' : List (Key Query)},
    (sc.keys ks).result = .ok ks' →
      sc.orderTexts? ks = some (ks'.map fun k =>
        (k.map (Query.sql sc.options.collation)).sql sc.options.collation)
  | [], _, h => by
    obtain rfl := Except.ok.inj h
    rfl
  | k :: ks, _, h => by
    simp only [keys, Trace.bind_eq_ok, Trace.pure_result, Except.ok.injEq] at h
    obtain ⟨e, he, rest, hrest, rfl⟩ := h
    have ih := orderTexts?_of_keys hrest
    rw [orderTexts?, List.mapM_cons, text?_eq_some.2 ⟨e, he, rfl⟩, ← orderTexts?, ih]
    simp [Key.map, Key.sql, Expr.querySql, String.append_assoc]

end

/-! ## Scopes over compiled subqueries -/

/-- The second scope makes of a replaced subquery what the first one makes of it. -/
structure Over {σ τ : Type} (f : σ → τ) (sc : Scope σ) (sc' : Scope τ) : Prop where
  options : sc'.options = sc.options
  subquery : ∀ q, sc'.subquery (f q) = sc.subquery q

namespace Over

variable {σ τ : Type} {f : σ → τ} {sc : Scope σ} {sc' : Scope τ} (h : Over f sc sc')

include h

theorem expr (e : Expr σ) : sc'.expr (e.map f) = sc.expr e := by
  rw [Scope.expr, Scope.expr, Expr.mapM_map, funext h.subquery]

theorem exprs (es : List (Expr σ)) : sc'.exprs (es.map (·.map f)) = sc.exprs es := by
  rw [Scope.exprs, Scope.exprs, ← Expr.mapList_eq, Expr.mapListM_mapList, funext h.subquery]

theorem expr? (e : Option (Expr σ)) : sc'.expr? (e.map (·.map f)) = sc.expr? e := by
  cases e with
  | none => rfl
  | some e => rw [Option.map_some, Scope.expr?, Scope.expr?, h.expr]

theorem keys (ks : List (SortKey σ)) : sc'.keys (ks.map (·.map f)) = sc.keys ks := by
  induction ks with
  | nil => rfl
  | cons k ks ih => rw [List.map_cons, Scope.keys, Scope.keys, ih, SortKey.map, h.expr]

theorem labelled (ks : List (SortKey σ)) :
    sc'.labelled (ks.map (·.map f)) =
      sc.labelled ks >>= fun l => pure (l.map fun x => (x.1, x.2.map f)) := by
  induction ks with
  | nil => simp [Scope.labelled]
  | cons k ks ih =>
    rw [List.map_cons, Scope.labelled, Scope.labelled, ih, SortKey.map, h.expr, h.options]
    simp [SortKey.map]

/-- Repetitions are found before or after subqueries are compiled. -/
theorem distinctKeys (ks : List (SortKey σ)) :
    sc'.distinctKeys (ks.map (·.map f)) =
      sc.distinctKeys ks >>= fun kept => pure (kept.map (·.map f)) := by
  rw [Scope.distinctKeys, Scope.distinctKeys, h.labelled]
  simp [firstOfEach_map]

end Over

end Scope

/-- The outermost level of a select is compiled as its expressions are on their own. -/
theorem Select.over_scope (options : Options) (s : Select) :
    (Update.scope options).Over (compiled options) (s.scope options) := ⟨rfl, fun _ => rfl⟩

/-! ## The select of the keys -/

/-- Without a mark a plain select becomes a query part by part. -/
theorem Scope.plain_unmarked {σ : Type} [BEq σ] {sc : Scope σ} {s : SelectBody σ} {c : Core σ}
    {q : Query} (hsingle : c.singleDistinct = false)
    (hmark : c.projections.head?.any Expr.isMarked = false)
    (h : (sc.plain (Shape.of s c) s c).result = .ok q) :
    ∃ top columns frame orders, (sc.expr? s.limit).result = .ok top ∧
      (sc.projections c.projections).result = .ok columns ∧
      (sc.frame s c c.groups).result = .ok frame ∧ (sc.keys s.orders).result = .ok orders ∧
      q = .of { frame with
        distinct := c.distinct, top := top, columns := [columns], orders := orders } := by
  rw [plain_result, (Shape.plainArrangement_eq s hsingle).2] at h
  simp only [hmark, Bool.false_eq_true, if_false, Bool.or_false, Trace.bind_eq_ok,
    Trace.pure_result, Except.ok.injEq] at h
  obtain ⟨top, htop, columns, hcolumns, frame, hframe, orders, horders, rfl⟩ := h
  exact ⟨top, columns, frame, orders, htop, hcolumns, hframe, horders, rfl⟩

namespace Update

variable {options : Options} {u : Update} {key : ColumnRef}

/-- **The select of the keys** is plain: its limit, conditions and order are those of the update,
and there is nothing else to it. -/
theorem keySelect_builds {q : Query} (h : ((u.keySelect key).compile options).result = .ok q) :
    (u.keySelect key).strategy? options = some .plain ∧
      ∃ top filters kept orders, ((scope options).expr? u.limit).result = .ok top ∧
        ((scope options).exprs u.wheres).result = .ok filters ∧
        ((scope options).distinctKeys u.orders).result = .ok kept ∧
        ((scope options).keys kept).result = .ok orders ∧
        q = .of
          { top := top
            columns := [[.expr (.column key)]]
            rows := some (.source (.table u.table) none)
            filters := filters
            orders := orders } := by
  have hover := (u.keySelect key).over_scope options
  obtain ⟨orders', horders', -, hcore⟩ := Select.compile_eq_ok rfl h
  have hstrategy : (u.keySelect key).strategy? options = some .plain := by
    unfold Select.strategy? SelectBody.strategy?
    rw [show ((SelectBody.scope options Compiled.query _).distinctKeys _).result = .ok orders' from
      horders']
    rfl
  refine ⟨hstrategy, ?_⟩
  -- one column without a mark, from one table
  obtain ⟨orders', horders', -, hplain⟩ := Select.plain_eq_ok rfl h hstrategy
  obtain ⟨top, columns, frame, orders, htop, hcolumns, hframe, horders, rfl⟩ :=
    Scope.plain_unmarked rfl rfl hplain
  obtain ⟨es, hes, rfl⟩ := Scope.projections_eq_ok.1 hcolumns
  obtain ⟨rows, filters, groups, having, hrows, hfilters, hgroups, hhaving, rfl⟩ :=
    Scope.frame_eq_ok.1 hframe
  obtain rfl := Except.ok.inj hrows
  obtain rfl := Except.ok.inj hes
  obtain rfl := Except.ok.inj hgroups
  obtain rfl := Except.ok.inj hhaving
  -- what is left is the same in the scope of the update
  have hkept : (((u.keySelect key).scope options).distinctKeys
      (u.orders.map (·.map (Select.compiled options)))).result = .ok orders' := horders'
  rw [hover.distinctKeys, Trace.bind_eq_ok] at hkept
  obtain ⟨kept, hkept, horders'⟩ := hkept
  obtain rfl := Except.ok.inj horders'
  refine ⟨top, filters, kept, orders, ?_, ?_, hkept, ?_, rfl⟩
  · rw [← hover.expr?]
    exact htop
  · rw [← hover.exprs]
    exact hfilters
  · rw [← hover.keys]
    exact horders

end Update

/-! ## Texts -/

/-- A clause at the end of a text, unless it has no items. -/
def trailing (keyword sep : String) (items : List String) : String :=
  if items.isEmpty then "" else " " ++ keyword ++ " " ++ join sep items

theorem join_append_clause (keyword sep : String) (items : List String) {parts : List String}
    (h : parts ≠ []) :
    join " " (parts ++ clause keyword sep items) = join " " parts ++ trailing keyword sep items := by
  unfold clause trailing
  split
  · simp
  · rw [Sql.join_append " " _ [] h]
    simp [join, String.append_assoc]

/-- The form `UPDATE [TOP (limit)] table SET values [WHERE conditions]`. -/
def updateText (limit : Option String) (table : String) (values conditions : List String) :
    String :=
  "UPDATE " ++ limit.elim "" (fun n => "TOP (" ++ n ++ ") ") ++ table ++ " SET " ++
    join ", " values ++ trailing "WHERE" " AND " conditions

/-- The form `SELECT TOP (limit) key FROM table [WHERE conditions] [ORDER BY orders]`. -/
def keySelectText (limit key table : String) (conditions orders : List String) : String :=
  "SELECT TOP (" ++ limit ++ ") " ++ key ++ " FROM " ++ table ++
    trailing "WHERE" " AND " conditions ++ trailing "ORDER BY" ", " orders

theorem UpdateQuery.sql_eq (collation : String) (u : UpdateQuery) :
    u.sql collation = updateText (u.top.map (Expr.querySql collation)) u.table.sql
      (u.values.map fun v => v.1.sql ++ " = " ++ v.2.querySql collation)
      (u.filters.map (Expr.querySql collation)) := by
  rw [UpdateQuery.sql, join_append_clause _ _ _ (by simp)]
  cases u.top with
  | none => simp [updateText, topClause, join, ← String.toList_inj]
  | some top => simp [updateText, topClause, join, Expr.querySql, ← String.toList_inj]

namespace Update

variable {options : Options} {u : Update} {text : String}

theorem keySelectText_eq_join (limit key table : String) (conditions orders : List String) :
    keySelectText limit key table conditions orders =
      join " " (["SELECT", "TOP (" ++ limit ++ ")", key, "FROM " ++ table] ++
        clause "WHERE" " AND " conditions ++ clause "ORDER BY" ", " orders) := by
  have hhead : join " " ["SELECT", "TOP (" ++ limit ++ ")", key, "FROM " ++ table] =
      "SELECT TOP (" ++ limit ++ ") " ++ key ++ " FROM " ++ table := by
    simp [join, ← String.toList_inj]
  have hparts : ["SELECT", "TOP (" ++ limit ++ ")", key, "FROM " ++ table] ++
      clause "WHERE" " AND " conditions ≠ [] := by simp
  unfold keySelectText
  rw [join_append_clause "ORDER BY" ", " orders hparts,
    join_append_clause "WHERE" " AND " conditions (List.cons_ne_nil _ _), hhead]

theorem keySelect_sql (collation : String) (table : TableRef) (key : ColumnRef) (top : Expr Query)
    (filters : List (Expr Query)) (orders : List (Key Query)) :
    (Query.of
      { top := some top
        columns := [[.expr (.column key)]]
        rows := some (.source (.table table) none)
        filters := filters
        orders := orders }).sql collation =
      keySelectText (top.querySql collation) key.sql table.sql
        (filters.map (Expr.querySql collation))
        (orders.map fun k => (k.map (Query.sql collation)).sql collation) := by
  have hsql : Expr.querySql collation = fun e => (e.map (Query.sql collation)).sql collation := rfl
  rw [Query.sql_eq_body, keySelectText_eq_join]
  simp [QueryBody.sql, QueryBody.map, Query.body, topClause, Column.map, Column.sql, Rows.map,
    Rows.sql, Source.map, Source.sql, Source.hinted, Expr.map, Expr.sql, Expr.sqlList_eq, join,
    hsql, Function.comp_def, clause]

theorem querySql_inSubquery (collation : String) (key : ColumnRef) (q : Query) :
    (Expr.inSubquery (.column key) q false).querySql collation =
      key.sql ++ " IN (" ++ q.sql collation ++ ")" := by
  simp [Expr.querySql, Expr.map, Expr.sql, Expr.negation, ← String.toList_inj]

theorem assignmentTexts?_of_compileValues :
    ∀ {values : List (ColumnRef × Expr Select)} {values' : List (ColumnRef × Expr Query)},
      (compileValues options values).result = .ok values' →
        (scope options).assignmentTexts? values =
          some (values'.map fun v => v.1.sql ++ " = " ++ v.2.querySql options.collation)
  | [], _, h => by
    obtain rfl := Except.ok.inj h
    rfl
  | v :: values, _, h => by
    simp only [compileValues, Trace.bind_eq_ok, Trace.pure_result, Except.ok.injEq] at h
    obtain ⟨e, he, rest, hrest, rfl⟩ := h
    have ih := assignmentTexts?_of_compileValues hrest
    have htext : (scope options).text? v.2 = some (e.querySql options.collation) :=
      Scope.text?_eq_some.2 ⟨e, he, rfl⟩
    rw [Scope.assignmentTexts?, List.mapM_cons, htext, ← Scope.assignmentTexts?, ih]
    rfl

/-- The text of an update, part by part. -/
theorem sql_parts (h : Statement.sql options (.update u) = .ok text) :
    ∃ top values filters, ((scope options).expr? u.ownLimit?).result = .ok top ∧
      (scope options).assignmentTexts? u.values = some values ∧
      ((scope options).exprs u.guarded.conditions).result = .ok filters ∧
      text = updateText (top.map (Expr.querySql options.collation)) u.table.sql values
        (filters.map (Expr.querySql options.collation)) := by
  rw [sql_result, Except.map_eq_ok_iff] at h
  obtain ⟨uq, huq, rfl⟩ := h
  obtain ⟨htop, htable, hvalues, hfilters⟩ := builds huq
  refine ⟨_, _, _, htop, assignmentTexts?_of_compileValues hvalues, hfilters, ?_⟩
  rw [UpdateQuery.sql_eq, htable]

/-! ## Restrictions -/

theorem exists_text {limit : Expr Select} {top : Option (Expr Query)}
    (h : ((scope options).expr? (some limit)).result = .ok top) :
    ∃ e, top = some e ∧
      (scope options).text? limit = some (e.querySql options.collation) := by
  simp only [Scope.expr?, Trace.bind_eq_ok, Trace.pure_result, Except.ok.injEq] at h
  obtain ⟨e, he, rfl⟩ := h
  exact ⟨e, rfl, Scope.text?_eq_some.2 ⟨e, he, rfl⟩⟩

/-- An update that is not restricted has no limit of its own, and its own conditions. -/
theorem sql_unrestricted (h : Statement.sql options (.update u) = .ok text)
    (hu : u.isRestricted = false) :
    ∃ values wheres, (scope options).assignmentTexts? u.values = some values ∧
      (scope options).texts? u.wheres = some wheres ∧
      text = updateText none u.table.sql values wheres := by
  obtain ⟨top, values, filters, htop, hvalues, hfilters, rfl⟩ := sql_parts h
  have hlimit : u.ownLimit? = none := by
    rw [ownLimit?, isRestricted_guarded, hu]
    rfl
  have hconditions : u.guarded.conditions = u.wheres := by
    rw [conditions, isRestricted_guarded, hu, wheres_guarded]
    cases u.guarded.keyColumn? <;> rfl
  rw [hlimit] at htop
  obtain rfl := Except.ok.inj htop
  rw [hconditions] at hfilters
  exact ⟨values, _, hvalues, Scope.texts?_of_exprs hfilters, rfl⟩

/-- Without a key a restricted update has its limit itself, unless it stands for none. -/
theorem ownLimit?_unkeyed (hu : u.isRestricted = true) (hkey : u.keyColumn? = none) :
    (u.effectiveLimit = .int unboundedLimit → u.ownLimit? = none) ∧
      (u.effectiveLimit ≠ .int unboundedLimit → u.ownLimit? = some u.effectiveLimit) := by
  have hlimit : u.ownLimit? =
      (some u.effectiveLimit).filter fun limit => !(limit == .int unboundedLimit) := by
    rw [ownLimit?, isRestricted_guarded, hu, keyColumn?_guarded, hkey, boundedLimit?,
      limit_guarded_of_restricted hu]
    rfl
  rw [hlimit]
  constructor
  · intro heq
    simp [Expr.beq_int_iff.2 heq]
  · intro hne
    have hbeq : ¬ (u.effectiveLimit == .int unboundedLimit) = true :=
      fun hbeq => hne (Expr.beq_int_iff.1 hbeq)
    simp [hbeq]

/-- A restricted update without a key is limited itself. -/
theorem sql_unkeyed (h : Statement.sql options (.update u) = .ok text)
    (hu : u.isRestricted = true) (hkey : u.keyColumn? = none) :
    ∃ values wheres top, (scope options).assignmentTexts? u.values = some values ∧
      (scope options).texts? u.wheres = some wheres ∧
      (top = none ↔ u.effectiveLimit = .int unboundedLimit) ∧
      (∀ limit, top = some limit → (scope options).text? u.effectiveLimit = some limit) ∧
      text = updateText top u.table.sql values wheres := by
  obtain ⟨top, values, filters, htop, hvalues, hfilters, rfl⟩ := sql_parts h
  obtain ⟨hnone, hsome⟩ := ownLimit?_unkeyed hu hkey
  have hconditions : u.guarded.conditions = u.wheres := by
    rw [conditions, keyColumn?_guarded, hkey, wheres_guarded]
  rw [hconditions] at hfilters
  refine ⟨values, _, top.map (Expr.querySql options.collation), hvalues,
    Scope.texts?_of_exprs hfilters, ?_⟩
  by_cases hlimit : u.effectiveLimit = .int unboundedLimit
  · rw [hnone hlimit] at htop
    obtain rfl := Except.ok.inj htop
    exact ⟨by simp [hlimit], by simp, rfl⟩
  · rw [hsome hlimit] at htop
    obtain ⟨e, rfl, htext⟩ := exists_text htop
    exact ⟨by simp [hlimit], by simp [htext], rfl⟩

/-- A restricted update with a key takes the rows whose keys a plain select gives. -/
theorem sql_keyed {key : ColumnRef} (h : Statement.sql options (.update u) = .ok text)
    (hu : u.isRestricted = true) (hkey : u.keyColumn? = some key) :
    ∃ values wheres limit kept orders, (scope options).assignmentTexts? u.values = some values ∧
      (scope options).texts? u.wheres = some wheres ∧
      (scope options).text? u.effectiveLimit = some limit ∧
      (scope options).Unrepeated u.orders kept ∧ (scope options).orderTexts? kept = some orders ∧
      (u.guarded.keySelect key).strategy? options = some .plain ∧
      Statement.sql options (.select (u.guarded.keySelect key)) =
        .ok (keySelectText limit key.sql u.table.sql wheres orders) ∧
      text = updateText none u.table.sql values
        [key.sql ++ " IN (" ++ keySelectText limit key.sql u.table.sql wheres orders ++ ")"] := by
  obtain ⟨top, values, filters, htop, hvalues, hfilters, rfl⟩ := sql_parts h
  have hlimit : u.ownLimit? = none := by
    rw [ownLimit?, keyColumn?_guarded, hkey]
    simp
  have hconditions : u.guarded.conditions =
      [.inSubquery (.column key) (u.guarded.keySelect key) false] := by
    rw [conditions, isRestricted_guarded, hu, keyColumn?_guarded, hkey]
    rfl
  rw [hlimit] at htop
  obtain rfl := Except.ok.inj htop
  -- the one condition has the query of the select
  rw [hconditions] at hfilters
  simp only [Scope.exprs, Expr.mapListM, Expr.mapM, Trace.bind_eq_ok, Trace.pure_result,
    Except.ok.injEq] at hfilters
  obtain ⟨_, ⟨_, rfl, q, hq, rfl⟩, _, rfl, rfl⟩ := hfilters
  obtain ⟨hplain, top, filters, kept, orders, htop, hfilters, hkept, horders, rfl⟩ :=
    keySelect_builds hq
  rw [limit_guarded_of_restricted hu] at htop
  rw [wheres_guarded] at hfilters
  rw [orders_guarded] at hkept
  obtain ⟨limit, rfl, htext⟩ := exists_text htop
  have hsql := keySelect_sql options.collation u.table key limit filters orders
  rw [table_guarded] at hq
  refine ⟨values, _, _, kept, _, hvalues, Scope.texts?_of_exprs hfilters, htext,
    Scope.unrepeated_distinctKeys hkept, Scope.orderTexts?_of_keys horders, hplain, ?_, ?_⟩
  · rw [Select.sql_eq hq]
    exact congrArg Except.ok hsql
  · rw [table_guarded, List.map_singleton, querySql_inSubquery, hsql]
    rfl

/-- **The text of an update.** Without order and limit it has its own conditions. Otherwise its rows
are those whose key is among the keys that a plain select gives, limited and sorted without
repetitions, and the conditions stand in the select alone. Where there is no key, the limit stands
in the update itself, unless it is the one that means none. -/
theorem sql_closed (h : Statement.sql options (.update u) = .ok text) :
    ∃ values wheres, (scope options).assignmentTexts? u.values = some values ∧
      (scope options).texts? u.wheres = some wheres ∧
      (u.orders = [] → u.limit = none → text = updateText none u.table.sql values wheres) ∧
      (u.orders ≠ [] ∨ u.limit ≠ none →
        (∀ key, u.keyColumn? = some key → ∃ limit kept orders,
          (scope options).text? u.effectiveLimit = some limit ∧
          (scope options).Unrepeated u.orders kept ∧
          (scope options).orderTexts? kept = some orders ∧
          (u.guarded.keySelect key).strategy? options = some .plain ∧
          Statement.sql options (.select (u.guarded.keySelect key)) =
            .ok (keySelectText limit key.sql u.table.sql wheres orders) ∧
          text = updateText none u.table.sql values
            [key.sql ++ " IN (" ++ keySelectText limit key.sql u.table.sql wheres orders ++ ")"]) ∧
        (u.keyColumn? = none → ∃ top,
          (top = none ↔ u.effectiveLimit = .int unboundedLimit) ∧
          (∀ limit, top = some limit → (scope options).text? u.effectiveLimit = some limit) ∧
          text = updateText top u.table.sql values wheres)) := by
  by_cases hu : u.isRestricted = true
  · have hlimit : u.orders = [] → u.limit ≠ none := fun horders =>
      (isRestricted_iff.1 hu).resolve_left (by simp [horders])
    cases hkey : u.keyColumn? with
    | some key =>
      obtain ⟨values, wheres, limit, kept, orders, hvalues, hwheres, hkeyed⟩ := sql_keyed h hu hkey
      refine ⟨values, wheres, hvalues, hwheres, fun horders hnone => absurd hnone (hlimit horders),
        fun _ => ⟨fun key' hkey' => ?_, nofun⟩⟩
      obtain rfl := Option.some.inj hkey'
      exact ⟨limit, kept, orders, hkeyed⟩
    | none =>
      obtain ⟨values, wheres, top, hvalues, hwheres, hunkeyed⟩ := sql_unkeyed h hu hkey
      exact ⟨values, wheres, hvalues, hwheres, fun horders hnone => absurd hnone (hlimit horders),
        fun _ => ⟨nofun, fun _ => ⟨top, hunkeyed⟩⟩⟩
  · obtain ⟨values, wheres, hvalues, hwheres, htext⟩ :=
      sql_unrestricted h (Bool.eq_false_of_not_eq_true hu)
    exact ⟨values, wheres, hvalues, hwheres, fun _ _ => htext,
      fun hrestricted => absurd (isRestricted_iff.2 hrestricted) hu⟩

/-- An update with a repeated sort key, and with a primary key in place of an explicit one. -/
def orderedUpdate : Update where
  table := { name := "t", primaryKey := some "id" }
  values := [(⟨none, "a"⟩, .int 0)]
  wheres := [.equals (.named "b") (.int 1), .not (.named "c")]
  orders := [(Expr.named "b").asc, (Expr.named "c").desc, (Expr.named "b").desc]
  limit := none
  key := none

/-- The text of that update: the repeated key is gone. -/
def orderedUpdateText : String :=
  "UPDATE [t] SET [a] = 0 WHERE [t].[id] IN (SELECT TOP (9223372036854775807) [t].[id] FROM [t] " ++
    "WHERE [b] = 1 AND NOT ([c]) ORDER BY [b] ASC, [c] DESC)"

theorem sql_closed_orderedUpdate :
    Statement.sql {} (.update orderedUpdate) = .ok orderedUpdateText ∧
      orderedUpdate.orders ≠ [] ∧ orderedUpdate.keyColumn? = some ⟨some "t", "id"⟩ ∧
      ∃ values wheres limit kept orders,
        (scope {}).assignmentTexts? orderedUpdate.values = some values ∧
        (scope {}).texts? orderedUpdate.wheres = some wheres ∧
        (scope {}).text? orderedUpdate.effectiveLimit = some limit ∧
        (scope {}).Unrepeated orderedUpdate.orders kept ∧
        (scope {}).orderTexts? kept = some orders ∧
        orderedUpdateText = updateText none orderedUpdate.table.sql values
          ["[t].[id] IN (" ++
            keySelectText limit "[t].[id]" orderedUpdate.table.sql wheres orders ++ ")"] := by
  have hsome : (Statement.sql {} (.update orderedUpdate)).toOption = some orderedUpdateText := by
    decide +kernel
  have hsql : Statement.sql {} (.update orderedUpdate) = .ok orderedUpdateText := by
    cases h : Statement.sql {} (.update orderedUpdate) with
    | error e => simp [h, Except.toOption] at hsome
    | ok text =>
      rw [h] at hsome
      rw [Option.some.inj hsome]
  have horders : orderedUpdate.orders ≠ [] := List.cons_ne_nil _ _
  have hkey : orderedUpdate.keyColumn? = some ⟨some "t", "id"⟩ := rfl
  have hkeyText : ColumnRef.sql ⟨some "t", "id"⟩ = "[t].[id]" := by decide +kernel
  obtain ⟨values, wheres, hvalues, hwheres, -, h⟩ := sql_closed hsql
  obtain ⟨limit, kept, orders, hlimit, hkept, horderTexts, -, -, htext⟩ :=
    (h (.inl horders)).1 _ hkey
  rw [hkeyText] at htext
  exact ⟨hsql, horders, hkey, values, wheres, limit, kept, orders, hvalues, hwheres, hlimit, hkept,
    horderTexts, htext⟩

end Update

end Transact
