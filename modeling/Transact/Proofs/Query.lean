import Transact.Proofs.Plan.Runs
import Transact.Proofs.Select
import Transact.Query.Text

/-!
# Folds over queries

A fold goes down into the derived tables and subqueries of a query. `QueryBody.map` replaces those
of one level, and `Query.Holds` says which queries a query has in parentheses.

* `Query.fold_of`: a fold over a query folds what is inside first and then the level above it.
* `Query.has_sql_of_encloses`: the text of a query has those of all queries inside it, in
  parentheses.
-/

set_option autoImplicit false

namespace Transact

/-! ## Replaced subqueries -/

section

variable {σ τ : Type} (f : σ → τ)

/-- The key with its subqueries replaced. -/
def Key.map (k : Key σ) : Key τ := ⟨k.expr.map f, k.direction⟩

/-- The window with its subqueries replaced. -/
def Window.map (w : Window σ) : Window τ :=
  ⟨w.ranking, w.partition.map (·.map f), w.orders.map (·.map f)⟩

/-- The column with its subqueries replaced. -/
def Column.map : Column σ → Column τ
  | .expr e => .expr (e.map f)
  | .ranked w name => .ranked (w.map f) name

/-- The rows with their subqueries and derived tables replaced. -/
def Rows.map : Rows σ → Rows τ
  | .source s hint => .source (s.map f) hint
  | .derived q name => .derived (f q) name

/-- The level with its subqueries and derived tables replaced. -/
def QueryBody.map (b : QueryBody σ) : QueryBody τ where
  distinct := b.distinct
  top := b.top.map (·.map f)
  columns := b.columns.map (·.map (·.map f))
  rows := b.rows.map (·.map f)
  filters := b.filters.map (·.map f)
  groups := b.groups.map (·.map f)
  having := b.having.map (·.map f)
  orders := b.orders.map (·.map f)

end

namespace Query

variable {α : Type} (level : QueryBody α → α)

mutual

theorem foldExpr_eq : ∀ e : Expr Query, foldExpr level e = e.map (fold level)
  | .column _ | .wildcard _ | .literal _ | .typed _ _ | .raw _ => by rw [foldExpr, Expr.map]
  | .aggregate _ args _ | .call _ args => by rw [foldExpr, Expr.map, foldList_eq args]
  | .alias e _ | .distinct e | .not e | .isNull e _ | .inSubquery e _ _ | .grouping e
  | .caseSensitive e => by rw [foldExpr, Expr.map, foldExpr_eq e]
  | .binary l _ r => by rw [foldExpr, Expr.map, foldExpr_eq l, foldExpr_eq r]
  | .inList e list _ => by rw [foldExpr, Expr.map, foldExpr_eq e, foldList_eq list]

theorem foldList_eq : ∀ es : List (Expr Query), foldList level es = Expr.mapList (fold level) es
  | [] => rfl
  | e :: es => by rw [foldList, Expr.mapList, foldExpr_eq e, foldList_eq es]

end

theorem foldOption_eq (e : Option (Expr Query)) :
    foldOption level e = e.map (·.map (fold level)) := by
  cases e with
  | none => rfl
  | some e => rw [foldOption, foldExpr_eq, Option.map_some]

theorem foldSource_eq : ∀ s : Source Query, foldSource level s = s.map (fold level)
  | .table _ => rfl
  | .join kind left right condition => by
    rw [foldSource, Source.map, foldSource_eq left, foldSource_eq right, foldOption_eq]
  | .raw _ => rfl

theorem foldKeys_eq_map : ∀ ks : List (Key Query), foldKeys level ks = ks.map (·.map (fold level))
  | [] => rfl
  | ⟨e, d⟩ :: ks => by rw [foldKeys, foldKeys_eq_map ks, foldExpr_eq, List.map_cons, Key.map]

theorem foldColumns_eq : ∀ cs : List (Column Query),
    foldColumns level cs = cs.map (·.map (fold level))
  | [] => rfl
  | .expr e :: cs => by
    rw [foldColumns, foldColumns_eq cs, foldExpr_eq, List.map_cons, Column.map]
  | .ranked ⟨ranking, partition, orders⟩ name :: cs => by
    rw [foldColumns, foldColumns_eq cs, foldList_eq, foldKeys_eq_map, List.map_cons, Column.map,
      Window.map, Expr.mapList_eq]

theorem foldBlocks_eq : ∀ bs : List (List (Column Query)),
    foldBlocks level bs = bs.map (·.map (·.map (fold level)))
  | [] => rfl
  | b :: bs => by rw [foldBlocks, foldBlocks_eq bs, foldColumns_eq, List.map_cons]

theorem foldRows_eq (rows : Option (Rows Query)) :
    foldRows level rows = rows.map (·.map (fold level)) := by
  cases rows with
  | none => rfl
  | some rows =>
    cases rows with
    | source s hint => rw [foldRows, foldSource_eq, Option.map_some, Rows.map]
    | derived q name => rw [foldRows, Option.map_some, Rows.map]

/-- **A fold** folds what is inside of a query first and then the level above it. -/
theorem fold_of (body : QueryBody Query) :
    (Query.of body).fold level = level (body.map (fold level)) := by
  obtain ⟨distinct, top, columns, rows, filters, groups, having, orders⟩ := body
  rw [fold, QueryBody.map]
  simp only [foldOption_eq, foldBlocks_eq, foldRows_eq, foldList_eq, foldKeys_eq_map,
    Expr.mapList_eq]

theorem sql_eq_body (collation : String) (q : Query) :
    q.sql collation = (q.body.map (Query.sql collation)).sql collation := by
  obtain ⟨body⟩ := q
  rw [Query.sql, fold_of]
  rfl

end Query

/-! ## Queries in parentheses -/

section

variable {σ τ : Type}

/-- The expressions of a column. -/
def Column.exprs : Column σ → List (Expr σ)
  | .expr e => [e]
  | .ranked w _ => w.partition ++ w.orders.map (·.expr)

/-- The conditions of the joins that the rows are drawn from. -/
def Rows.exprs : Rows σ → List (Expr σ)
  | .source s _ => s.usedConditions
  | .derived _ _ => []

/-- The expressions that a level is written with. -/
def QueryBody.exprs (b : QueryBody σ) : List (Expr σ) :=
  b.top.toList ++ b.columns.flatten.flatMap Column.exprs ++ b.rows.toList.flatMap Rows.exprs ++
    b.filters ++ b.groups ++ b.having.toList ++ b.orders.map (·.expr)

end

/-- The query has the other one as a derived table, or after an `IN`. -/
def Query.Holds (q r : Query) : Prop :=
  (∃ name, q.body.rows = some (.derived r name)) ∨ ∃ e ∈ q.body.exprs, r ∈ e.subqueries

/-- The query has the other one inside, at any depth. -/
def Query.Encloses (q r : Query) : Prop := Relation.TransGen Query.Holds q r

/-! ## Texts with other texts in them -/

namespace Text

/-- The text has the other one as a part. -/
def Has (text part : String) : Prop := part.toList <:+: text.toList

namespace Has

variable {a b part : String}

theorem refl (a : String) : Has a a := List.infix_refl _

theorem trans {c : String} (h : Has a b) (h' : Has b c) : Has a c := List.IsInfix.trans h' h

theorem left (h : Has a part) (b : String) : Has (a ++ b) part := by
  rw [Has, String.toList_append]
  exact List.IsInfix.trans h (List.prefix_append _ _).isInfix

theorem right (h : Has b part) (a : String) : Has (a ++ b) part := by
  rw [Has, String.toList_append]
  exact List.IsInfix.trans h (List.suffix_append _ _).isInfix

/-- A text that is joined to others is a part of the whole. -/
theorem join {sep text : String} : ∀ {texts : List String}, text ∈ texts →
    Has (Text.join sep texts) text
  | [_], h => by
    rw [List.mem_singleton.1 h]
    exact refl _
  | s :: t :: rest, h => by
    rcases List.mem_cons.1 h with rfl | h
    · exact ((refl _).left _).left _
    · exact (join h).right _

end Has

end Text

open Text (Has)

/-- Each item of a clause is a part of it. -/
theorem exists_clause (keyword sep : String) {item : String} {items : List String}
    (h : item ∈ items) :
    ∃ text ∈ clause keyword sep items, Has text item := by
  cases items with
  | nil => simp at h
  | cons i is => exact ⟨_, List.mem_singleton_self _, (Has.join h).right _⟩

theorem Expr.sqlList_eq (collation : String) : ∀ es : List (Expr String),
    Expr.sqlList collation es = es.map (Expr.sql collation)
  | [] => rfl
  | e :: es => by rw [Expr.sqlList, sqlList_eq collation es, List.map_cons]

mutual

/-- A subquery stands in parentheses after `IN` in the text of an expression. -/
theorem Expr.has_subquery (collation : String) {q : String} : ∀ e : Expr String,
    q ∈ e.subqueries → Has (e.sql collation) ("IN (" ++ q ++ ")")
  | .column _, h | .wildcard _, h | .literal _, h | .typed _ _, h | .raw _, h => by
    simp at h
  | .aggregate _ args _, h => by
    have hargs : args.isEmpty = false := by
      cases args with
      | nil => simp at h
      | cons _ _ => rfl
    simp only [Expr.sql, hargs, Bool.false_eq_true, if_false]
    exact ((has_subqueryList collation args h).right _).left _
  | .call _ args, h => by
    rw [Expr.sql]
    exact ((has_subqueryList collation args h).right _).left _
  | .alias e _, h => by
    rw [Expr.sql]
    exact ((has_subquery collation e h).left _).left _
  | .distinct e, h => by
    rw [Expr.sql]
    exact (has_subquery collation e h).right _
  | .binary l _ r, h => by
    rw [Expr.sql]
    rcases List.mem_append.1 h with h | h
    · exact ((((has_subquery collation l h).left _).left _).left _).left _
    · exact (has_subquery collation r h).right _
  | .not e, h | .grouping e, h => by
    rw [Expr.sql]
    exact ((has_subquery collation e h).right _).left _
  | .isNull e _, h => by
    rw [Expr.sql]
    exact (((has_subquery collation e h).left _).left _).left _
  | .caseSensitive e, h => by
    rw [Expr.sql]
    exact ((has_subquery collation e h).left _).left _
  | .inList e list _, h => by
    rw [Expr.sql]
    rcases List.mem_append.1 h with h | h
    · exact (((((has_subquery collation e h).left _).left _).left _).left _).left _
    · exact ((has_subqueryList collation list h).right _).left _
  | .inSubquery e q' n, h => by
    rw [Expr.sql]
    rcases List.mem_append.1 h with h | h
    · exact (((((has_subquery collation e h).left _).left _).left _).left _).left _
    · rw [List.mem_singleton.1 h]
      have htext : sql collation e ++ " " ++ negation n ++ "IN (" ++ q' ++ ")" =
          sql collation e ++ " " ++ negation n ++ ("IN (" ++ q' ++ ")") := by
        simp [← String.toList_inj]
      rw [htext]
      exact (Has.refl _).right _

theorem Expr.has_subqueryList (collation : String) {q : String} : ∀ es : List (Expr String),
    q ∈ subqueriesList es → Has (Text.join ", " (sqlList collation es)) ("IN (" ++ q ++ ")")
  | [], h => by simp at h
  | e :: es, h => by
    rw [sqlList]
    rcases List.mem_append.1 h with h | h
    · exact (Has.join List.mem_cons_self).trans (has_subquery collation e h)
    · cases es with
      | nil => simp at h
      | cons e' es =>
        have ih := has_subqueryList collation (e' :: es) h
        rw [sqlList] at ih ⊢
        exact ih.right _

end

theorem Source.has_condition (collation : String) {e : Expr String} :
    ∀ {s : Source String} (hint : Option String), e ∈ s.usedConditions →
      Has (s.sql collation hint) (e.sql collation)
  | .table _, _, h => by simp [usedConditions] at h
  | .raw _, _, h => by simp [usedConditions] at h
  | .join kind left right condition, hint, h => by
    rw [usedConditions, List.mem_append, List.mem_append] at h
    have hright : e ∈ right.usedConditions →
        Has (if right.isJoin then "(" ++ sql collation right none ++ ")"
          else sql collation right none) (e.sql collation) := by
      intro h
      split
      · exact ((has_condition collation none h).right _).left _
      · exact has_condition collation none h
    unfold sql
    simp only
    rcases h with (h | h) | h
    · have hleft := has_condition collation hint h
      split
      · exact (hleft.left _).left _
      · exact (((hleft.left _).left _).left _).left _
      · exact (((hleft.left _).left _).left _).left _
      · exact (((((hleft.left _).left _).left _).left _).left _).left _
    · have hright := hright h
      split
      · exact hright.right _
      · exact hright.right _
      · exact hright.right _
      · exact ((hright.right _).left _).left _
    · split at h
      · simp at h
      · rename_i hkind
        split
        · exact absurd (.inr rfl) hkind
        · exact absurd (.inl rfl) hkind
        · simp at h
        · rw [Option.toList_some, List.mem_singleton] at h
          rw [h]
          exact (Has.refl _).right _

theorem Column.has_expr (collation : String) {e : Expr String} {column : Column String}
    (h : e ∈ column.exprs) : Has (column.sql collation) (e.sql collation) := by
  cases column with
  | expr e' =>
    rw [List.mem_singleton.1 h]
    exact Has.refl _
  | ranked w name =>
    refine (Has.left ?_ _).left _
    unfold Window.sql
    refine (Has.right ?_ _).left _
    rcases List.mem_append.1 h with h | h
    · have hitem : e.sql collation ∈ Expr.sqlList collation w.partition := by
        rw [Expr.sqlList_eq]
        exact List.mem_map_of_mem h
      obtain ⟨text, htext, hhas⟩ := exists_clause "PARTITION BY" ", " hitem
      exact (Has.join (List.mem_append_left _ htext)).trans hhas
    · obtain ⟨k, hk, rfl⟩ := List.mem_map.1 h
      obtain ⟨text, htext, hhas⟩ := exists_clause "ORDER BY" ", "
        (List.mem_map_of_mem (f := Key.sql collation) hk)
      exact (Has.join (List.mem_append_right _ htext)).trans (hhas.trans ((Has.refl _).left _))

theorem QueryBody.has_columns (collation : String) {b : QueryBody String} {column : Column String}
    (h : column ∈ b.columns.flatten) :
    Has (Text.join ", " (b.columns.map fun block =>
      Text.join ", " (block.map (Column.sql collation)))) (column.sql collation) := by
  obtain ⟨block, hblock, hcolumn⟩ := List.mem_flatten.1 h
  exact (Has.join (List.mem_map.2 ⟨block, hblock, rfl⟩)).trans
    (Has.join (List.mem_map_of_mem hcolumn))

/-- A column of the select list is a part of the text. -/
theorem QueryBody.has_column (collation : String) {b : QueryBody String} {column : Column String}
    (h : column ∈ b.columns.flatten) : Has (b.sql collation) (column.sql collation) := by
  refine (Has.join ?_).trans (has_columns collation h)
  simp

/-- What a level is written with is a part of its text. -/
theorem QueryBody.has_expr (collation : String) {b : QueryBody String} {e : Expr String}
    (h : e ∈ b.exprs) : Has (b.sql collation) (e.sql collation) := by
  -- it is enough to find a piece of the text with the expression in it
  suffices hpiece : ∃ text ∈ ["SELECT"] ++ (if b.distinct then ["DISTINCT"] else []) ++
      topClause collation b.top ++
      [Text.join ", " (b.columns.map fun block =>
        Text.join ", " (block.map (Column.sql collation)))] ++
      (b.rows.toList.map fun rows => "FROM " ++ rows.sql collation) ++
      clause "WHERE" " AND " (Expr.sqlList collation b.filters) ++
      clause "GROUP BY" ", " (Expr.sqlList collation b.groups) ++
      (b.having.toList.map fun e => "HAVING " ++ e.sql collation) ++
      clause "ORDER BY" ", " (b.orders.map (Key.sql collation)), Has text (e.sql collation) by
    obtain ⟨text, htext, hhas⟩ := hpiece
    exact (Has.join htext).trans hhas
  have hlist : ∀ {es : List (Expr String)}, e ∈ es →
      e.sql collation ∈ Expr.sqlList collation es := by
    intro es he
    rw [Expr.sqlList_eq]
    exact List.mem_map_of_mem he
  simp only [QueryBody.exprs, List.mem_append] at h
  rcases h with (((((h | h) | h) | h) | h) | h) | h
  · refine ⟨"TOP (" ++ e.sql collation ++ ")", ?_, ((Has.refl _).right _).left _⟩
    have : "TOP (" ++ e.sql collation ++ ")" ∈ topClause collation b.top :=
      List.mem_map_of_mem (f := fun n : Expr String => "TOP (" ++ n.sql collation ++ ")") h
    simp [this]
  · obtain ⟨column, hcolumn, h⟩ := List.mem_flatMap.1 h
    refine ⟨_, ?_, (has_columns collation hcolumn).trans (Column.has_expr collation h)⟩
    simp
  · obtain ⟨rows, hrows, h⟩ := List.mem_flatMap.1 h
    cases rows with
    | source s hint =>
      refine ⟨_, by simp only [List.mem_append]; exact .inl (.inl (.inl (.inl (.inr
        (List.mem_map_of_mem hrows))))), ?_⟩
      exact (Source.has_condition collation hint h).right _
    | derived q name => simp [Rows.exprs] at h
  · obtain ⟨text, htext, hhas⟩ := exists_clause "WHERE" " AND " (hlist h)
    exact ⟨text, by simp only [List.mem_append]; exact .inl (.inl (.inl (.inr htext))), hhas⟩
  · obtain ⟨text, htext, hhas⟩ := exists_clause "GROUP BY" ", " (hlist h)
    exact ⟨text, by simp only [List.mem_append]; exact .inl (.inl (.inr htext)), hhas⟩
  · refine ⟨_, by simp only [List.mem_append]; exact .inl (.inr (List.mem_map_of_mem h)), ?_⟩
    exact (Has.refl _).right _
  · obtain ⟨k, hk, rfl⟩ := List.mem_map.1 h
    obtain ⟨text, htext, hhas⟩ := exists_clause "ORDER BY" ", "
      (List.mem_map_of_mem (f := Key.sql collation) hk)
    exact ⟨text, by simp only [List.mem_append]; exact .inr htext,
      hhas.trans ((Has.refl _).left _)⟩

theorem QueryBody.has_derived (collation : String) {b : QueryBody String} {q name : String}
    (h : b.rows = some (.derived q name)) : Has (b.sql collation) ("(" ++ q ++ ")") := by
  have hpiece : "FROM " ++ (Rows.derived q name).sql collation ∈
      b.rows.toList.map fun rows => "FROM " ++ rows.sql collation := by
    rw [h]
    exact List.mem_singleton_self _
  refine (Has.join (by simp only [List.mem_append]; exact .inl (.inl (.inl (.inl (.inr
    hpiece)))))).trans ?_
  have htext : (Rows.derived q name).sql collation =
      "(" ++ q ++ ")" ++ (" AS " ++ Sql.name name) := by
    simp [Rows.sql, ← String.toList_inj]
  rw [htext]
  exact ((Has.refl _).left _).right _

/-! ## Texts of queries -/

section

variable {σ τ : Type} (f : σ → τ)

theorem Source.usedConditions_map : ∀ s : Source σ,
    (s.map f).usedConditions = s.usedConditions.map (·.map f)
  | .table _ => rfl
  | .raw _ => rfl
  | .join kind left right condition => by
    simp only [map, usedConditions, usedConditions_map left, usedConditions_map right,
      List.map_append]
    split
    · rfl
    · cases condition <;> rfl

theorem Column.exprs_map (column : Column σ) :
    (column.map f).exprs = column.exprs.map (·.map f) := by
  cases column with
  | expr e => rfl
  | ranked w name => simp [exprs, map, Window.map, Key.map, Function.comp_def]

theorem QueryBody.mem_exprs_map {b : QueryBody σ} {e : Expr σ} (h : e ∈ b.exprs) :
    e.map f ∈ (b.map f).exprs := by
  simp only [QueryBody.exprs, List.mem_append] at h ⊢
  rcases h with (((((h | h) | h) | h) | h) | h) | h
  · refine .inl (.inl (.inl (.inl (.inl (.inl ?_)))))
    exact Option.mem_toList.2 (Option.mem_map_of_mem _ (Option.mem_toList.1 h))
  · obtain ⟨column, hcolumn, h⟩ := List.mem_flatMap.1 h
    obtain ⟨block, hblock, hcolumn⟩ := List.mem_flatten.1 hcolumn
    refine .inl (.inl (.inl (.inl (.inl (.inr (List.mem_flatMap.2 ⟨column.map f, ?_, ?_⟩))))))
    · exact List.mem_flatten.2 ⟨_, List.mem_map_of_mem hblock, List.mem_map_of_mem hcolumn⟩
    · rw [Column.exprs_map]
      exact List.mem_map_of_mem h
  · obtain ⟨rows, hrows, h⟩ := List.mem_flatMap.1 h
    refine .inl (.inl (.inl (.inl (.inr (List.mem_flatMap.2 ⟨rows.map f, ?_, ?_⟩)))))
    · exact Option.mem_toList.2 (Option.mem_map_of_mem _ (Option.mem_toList.1 hrows))
    · cases rows with
      | source s hint =>
        rw [Rows.map, Rows.exprs, Source.usedConditions_map]
        exact List.mem_map_of_mem h
      | derived q name => simp [Rows.exprs] at h
  · exact .inl (.inl (.inl (.inr (List.mem_map_of_mem h))))
  · exact .inl (.inl (.inr (List.mem_map_of_mem h)))
  · exact .inl (.inr (Option.mem_toList.2 (Option.mem_map_of_mem _ (Option.mem_toList.1 h))))
  · obtain ⟨k, hk, rfl⟩ := List.mem_map.1 h
    exact .inr (List.mem_map.2 ⟨k.map f, List.mem_map_of_mem hk, rfl⟩)

end

theorem Expr.has_inQuery (collation : String) {e : Expr Query} {q : Query}
    (h : q ∈ e.subqueries) :
    Has (e.querySql collation) ("IN (" ++ q.sql collation ++ ")") := by
  refine Expr.has_subquery collation _ ?_
  rw [Expr.subqueries_map]
  exact List.mem_map_of_mem h

theorem Expr.has_querySql (collation : String) {e : Expr Query} {q : Query}
    (h : q ∈ e.subqueries) :
    Has (e.querySql collation) ("(" ++ q.sql collation ++ ")") := by
  refine (has_inQuery collation h).trans ?_
  have htext : "IN (" ++ q.sql collation ++ ")" = "IN " ++ ("(" ++ q.sql collation ++ ")") := by
    simp [← String.toList_inj]
  rw [htext]
  exact (Has.refl _).right _

theorem Query.has_querySql (collation : String) {q : Query} {e : Expr Query}
    (h : e ∈ q.body.exprs) : Has (q.sql collation) (e.querySql collation) := by
  rw [Query.sql_eq_body]
  exact QueryBody.has_expr collation (QueryBody.mem_exprs_map _ h)

theorem Query.has_sql_of_holds (collation : String) {q r : Query} (h : q.Holds r) :
    Has (q.sql collation) ("(" ++ r.sql collation ++ ")") := by
  rcases h with ⟨name, hrows⟩ | ⟨e, he, hr⟩
  · have hrows' : (q.body.map (Query.sql collation)).rows =
        some (.derived (r.sql collation) name) := by
      rw [QueryBody.map, hrows]
      rfl
    rw [Query.sql_eq_body]
    exact QueryBody.has_derived collation hrows'
  · exact (Query.has_querySql collation he).trans (Expr.has_querySql collation hr)

/-- **A query inside another** stands in parentheses in its text. -/
theorem Query.has_sql_of_encloses (collation : String) {q r : Query} (h : q.Encloses r) :
    Has (q.sql collation) ("(" ++ r.sql collation ++ ")") := by
  induction h with
  | single h => exact has_sql_of_holds collation h
  | tail _ h ih => exact ih.trans (((has_sql_of_holds collation h).right _).left _)

end Transact
