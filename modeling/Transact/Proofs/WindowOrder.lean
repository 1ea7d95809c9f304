import Transact.Proofs.EnclosedOrder
import Transact.Proofs.Exports

/-!
# Windows have an order

The windows of a query rank its rows, and its groups merge them. `Query.HasLevels` lists both for a
query and the derived tables below it; one lemma for each strategy says what they are.

* `Scope.plain_levels`, `Scope.count_levels`, `Scope.paginated_levels`,
  `Scope.distinctOrder_levels`: the windows and groups of each strategy.
* `Select.exists_draws_of_holds`: every query inside of a compiled one belongs to that of a select.
* `Select.windows_ordered`: every window has an order, which is written.
-/

set_option autoImplicit false

namespace Transact

open Text (Has)

/-! ## Levels -/

/-- The window of a column that ranks the rows. -/
@[simp] def Column.window? {σ : Type} : Column σ → Option (Window σ)
  | .expr _ => none
  | .ranked w _ => some w

namespace Query

/-- The windows in the list of a query. -/
def windows (q : Query) : List (Window Query) := q.body.columns.flatten.filterMap Column.window?

/-- The windows in the list of a query, and its groups. -/
def level (q : Query) : List (Window Query) × List (Expr Query) := (q.windows, q.body.groups)

/-- These are the levels of the query and of the derived tables below it. -/
def HasLevels (q : Query) (levels : List (List (Window Query) × List (Expr Query))) : Prop :=
  ∀ P : List (Window Query) × List (Expr Query) → Prop,
    (∀ r, q.Draws r → P r.level) ↔ ∀ l ∈ levels, P l

variable {q r : Query} {name : String} {l : List (Window Query) × List (Expr Query)}

theorem hasLevels_of_not_derived (h : ∀ r name, q.body.rows ≠ some (.derived r name))
    (hl : q.level = l) : q.HasLevels [l] := by
  intro P
  rw [forall_draws_of_not_derived (P := fun r => P r.level) h, List.forall_mem_singleton, hl]

theorem hasLevels_of_derived (h : q.body.rows = some (.derived r name)) (hl : q.level = l)
    {levels : List (List (Window Query) × List (Expr Query))} (hr : r.HasLevels levels) :
    q.HasLevels (l :: levels) := by
  intro P
  rw [forall_draws_of_derived (P := fun r => P r.level) h, hr P, List.forall_mem_cons, hl]

theorem level_of (b : QueryBody Query) :
    (Query.of b).level = (b.columns.flatten.filterMap Column.window?, b.groups) := rfl

/-- A window of a query is written in its text. -/
theorem has_window (collation : String) {w : Window Query} (h : w ∈ q.windows) :
    Has (q.sql collation) ((w.map (Query.sql collation)).sql collation) := by
  obtain ⟨column, hcolumn, hw⟩ := List.mem_filterMap.1 h
  obtain ⟨w', name, rfl⟩ : ∃ w' name, column = .ranked w' name := by
    cases column with
    | expr e => cases hw
    | ranked w' name => exact ⟨w', name, rfl⟩
  obtain rfl := Option.some.inj hw
  have hmapped : .ranked (w'.map (Query.sql collation)) name ∈
      (q.body.map (Query.sql collation)).columns.flatten := by
    obtain ⟨block, hblock, hcolumn⟩ := List.mem_flatten.1 hcolumn
    exact List.mem_flatten.2 ⟨_, List.mem_map_of_mem hblock, List.mem_map_of_mem hcolumn⟩
  rw [sql_eq_body]
  exact (QueryBody.has_column collation hmapped).trans (((Has.refl _).left _).left _)

end Query

/-- The text of a window ends with its order. -/
theorem Window.exists_sql (collation : String) {w : Window String} (h : w.orders ≠ []) :
    ∃ partition, w.sql collation = w.ranking.keyword ++ "() OVER (" ++ partition ++ "ORDER BY " ++
      Text.join ", " (w.orders.map (Key.sql collation)) ++ ")" := by
  have horders : clause "ORDER BY" ", " (w.orders.map (Key.sql collation)) =
      ["ORDER BY " ++ Text.join ", " (w.orders.map (Key.sql collation))] := by
    rw [clause, if_neg (by simpa using h)]
    simp
  rw [Window.sql, horders]
  unfold clause
  split
  · exact ⟨"", by simp [Text.join, ← String.toList_inj]⟩
  · exact ⟨"PARTITION BY" ++ " " ++ Text.join ", " (Expr.sqlList collation w.partition) ++ " ",
      by simp [Text.join, ← String.toList_inj]⟩

/-! ## The levels of each strategy -/

namespace Scope

variable {σ : Type} {sc : Scope σ} {s : SelectBody σ} {c : Core σ} {q : Query}

theorem window?_projections {ps : List (Expr σ)} {columns : List (Column Query)}
    (h : (sc.projections ps).result = .ok columns) : columns.filterMap Column.window? = [] := by
  obtain ⟨es, -, rfl⟩ := projections_eq_ok.1 h
  simp

theorem groups_frame {groups : List (Expr σ)} {f : QueryBody Query}
    (h : (sc.frame s c groups).result = .ok f) : (sc.exprs groups).result = .ok f.groups := by
  obtain ⟨rows, filters, groups', having, -, -, hgroups, -, rfl⟩ := frame_eq_ok.1 h
  exact hgroups

/-- Keys are compiled like their expressions. -/
theorem exprs_of_keys : ∀ {ks : List (SortKey σ)} {ks' : List (Key Query)},
    (sc.keys ks).result = .ok ks' →
      (sc.exprs (ks.map (·.expr))).result = .ok (ks'.map (·.expr))
  | [], _, h => by
    obtain rfl := Except.ok.inj h
    rfl
  | k :: ks, _, h => by
    obtain ⟨e, he, h⟩ := Trace.bind_eq_ok.1 h
    obtain ⟨rest, hrest, h⟩ := Trace.bind_eq_ok.1 h
    obtain rfl := Except.ok.inj h
    exact exprs_eq_ok.2 (.cons he (exprs_eq_ok.1 (exprs_of_keys hrest)))

/-- A plain query has no windows. -/
theorem plain_levels {sh : Shape} (h : (sc.plain sh s c).result = .ok q) :
    ∃ groups, (sc.exprs (sh.plainArrangement s c).groups).result = .ok groups ∧
      q.HasLevels [([], groups)] := by
  obtain ⟨top, columns, frame, orders, distinct, ps, -, -, hcolumns, hframe, -, rfl⟩ :=
    plain_builds h
  refine ⟨frame.groups, groups_frame hframe,
    Query.hasLevels_of_not_derived (frame_orders hframe).2 ?_⟩
  simp [Query.level_of, window?_projections hcolumns]

/-- The rows that are counted are numbered. -/
theorem count_levels (h : (sc.count s c).result = .ok q) :
    ∃ orders groups, (sc.keys (pageKeys s.orders c.baseTable?)).result = .ok orders ∧
      (sc.exprs c.groups).result = .ok groups ∧
      q.HasLevels [([], []), ([⟨.rowNumber, [], orders⟩], groups)] := by
  obtain ⟨top, offset, window, frame, orders, -, hwindow, hframe, -, -, rfl⟩ := count_builds h
  obtain ⟨partition, keys, hpartition, hkeys, rfl⟩ := window_eq_ok.1 hwindow
  obtain rfl := Except.ok.inj hpartition
  refine ⟨keys, frame.groups, hkeys, groups_frame hframe, Query.hasLevels_of_derived rfl rfl ?_⟩
  exact Query.hasLevels_of_not_derived (frame_orders hframe).2 rfl

/-- The rows of a page are ranked by its keys, and may be grouped. -/
theorem paginated_levels [BEq σ] {sh : Shape} (h : (sc.paginated sh s c).result = .ok q) :
    ∃ ranking keys orders groups,
      ((sh.denseKeys s c).result = .ok keys ∨ (s.rowKeys c).result = .ok keys) ∧
      (sc.keys keys).result = .ok orders ∧
      (sc.exprs (sh.numberedGroups s c)).result = .ok groups ∧
      q.HasLevels [([], []), ([⟨ranking, [], orders⟩], groups)] := by
  obtain ⟨keys, top, offset, outer, ranking, window, columns, frame, hkeys, -, -, hwindow,
    hcolumns, hframe, -, rfl⟩ := paginated_builds h
  obtain ⟨partition, orders, hpartition, horders, rfl⟩ := window_eq_ok.1 hwindow
  obtain rfl := Except.ok.inj hpartition
  refine ⟨ranking, keys, orders, frame.groups, hkeys, horders, groups_frame hframe,
    Query.hasLevels_of_derived rfl ?_ (Query.hasLevels_of_not_derived ?_ ?_)⟩
  · simp [Query.level_of]
  · exact (frame_orders hframe).2
  · simp [Query.level_of, window?_projections hcolumns]

/-- Distinct rows in a foreign order are ranked by the order, and numbered among their duplicates.
With an offset they are numbered once more. -/
theorem distinctOrder_levels (h : (sc.distinctOrder s c).result = .ok q) :
    ∃ orders partition groups between, (sc.keys s.orders).result = .ok orders ∧
      (sc.exprs ((c.projections.map Expr.unmarked).map c.identity)).result = .ok partition ∧
      (sc.exprs c.groups).result = .ok groups ∧
      (∀ l ∈ between, l = ([⟨.rowNumber, [], [⟨.named sc.names.order, none⟩]⟩], [])) ∧
      q.HasLevels (([], []) :: (between ++
        [([⟨.denseRank, [], orders⟩, ⟨.rowNumber, partition, orders⟩], groups)])) := by
  obtain ⟨columns, outer, rank, duplicate, frame, top, offset, -, hrank, hduplicate, hframe, -, -,
    -, rfl⟩ := distinctOrder_builds h
  obtain ⟨partition, orders, hpartition, horders, rfl⟩ := window_eq_ok.1 hrank
  obtain rfl := Except.ok.inj hpartition
  obtain ⟨partition, orders', hpartition, horders', rfl⟩ := window_eq_ok.1 hduplicate
  obtain rfl : orders' = orders := Except.ok.inj (horders'.symm.trans horders)
  have hranked : (rankedRows sc.names frame columns ⟨.denseRank, [], orders'⟩
      ⟨.rowNumber, partition, orders'⟩).HasLevels
        [([⟨.denseRank, [], orders'⟩, ⟨.rowNumber, partition, orders'⟩], frame.groups)] := by
    refine Query.hasLevels_of_not_derived (frame_orders hframe).2 ?_
    simp [rankedRows, Query.level_of]
  cases offset with
  | none =>
    refine ⟨orders', partition, frame.groups, [], horders, hpartition, groups_frame hframe,
      by simp, Query.hasLevels_of_derived rfl ?_ hranked⟩
    simp [Query.level_of]
  | some offset =>
    refine ⟨orders', partition, frame.groups,
      [([⟨.rowNumber, [], [⟨.named sc.names.order, none⟩]⟩], [])], horders, hpartition,
      groups_frame hframe, by simp,
      Query.hasLevels_of_derived rfl rfl (Query.hasLevels_of_derived rfl ?_ hranked)⟩
    simp [Query.level_of]

end Scope

/-! ## Orders are not empty -/

section

variable {σ : Type} {s : SelectBody σ} {c : Core σ}

theorem pageKeys_ne_nil (orders : List (SortKey σ)) (base : Option TableRef) :
    pageKeys orders base ≠ [] := by
  unfold pageKeys
  split <;> exact List.cons_ne_nil _ _

theorem SelectBody.rowKeys_ne_nil {keys : List (SortKey σ)} (h : (s.rowKeys c).result = .ok keys) :
    keys ≠ [] := by
  rw [s.rowKeys_result] at h
  rw [← Except.ok.inj h]
  exact pageKeys_ne_nil _ _

/-- Without keys of its own a dense rank has those of the rows. -/
theorem Shape.denseKeys_ne_nil [BEq σ] {sh : Shape} {keys : List (SortKey σ)}
    (h : (sh.denseKeys s c).result = .ok keys) : keys ≠ [] := by
  unfold denseKeys at h
  simp only at h
  split at h
  · exact SelectBody.rowKeys_ne_nil h
  · rename_i hkeys
    rw [← Except.ok.inj h]
    simpa using hkeys

/-- What a shape is like that has this strategy. -/
theorem Shape.strategy_spec (sh : Shape) :
    match sh.strategy with
    | .count => sh.countOnly = true ∧ sh.hasLimit = true ∧ sh.hasJoin = false
    | .distinctOrder => sh.isDistinct = true ∧ sh.foreignOrder = true
    | .paginated => sh.hasOffset = true ∧ (sh.isDistinct && sh.foreignOrder) = false
    | .plain => sh.hasOffset = false ∧ (sh.isDistinct && sh.foreignOrder) = false := by
  unfold strategy
  by_cases hcount : (sh.countOnly && sh.hasLimit && !sh.hasJoin) = true
  · rw [if_pos hcount]
    simpa [and_assoc] using hcount
  · rw [if_neg hcount]
    by_cases hforeign : (sh.isDistinct && sh.foreignOrder) = true
    · rw [if_pos hforeign]
      simpa using hforeign
    · rw [if_neg hforeign]
      cases sh.hasOffset with
      | true => exact ⟨rfl, Bool.eq_false_iff.2 hforeign⟩
      | false => exact ⟨rfl, Bool.eq_false_iff.2 hforeign⟩

/-- An order is foreign only if there is one. -/
theorem Shape.orders_ne_nil_of_strategy [BEq σ] (h : (Shape.of s c).strategy = .distinctOrder) :
    s.orders ≠ [] := by
  have hspec := (Shape.of s c).strategy_spec
  rw [h] at hspec
  obtain ⟨k, hk, -⟩ := List.any_eq_true.1 hspec.2
  exact List.ne_nil_of_mem hk

/-- **All windows of a compiled core** have an order, in its query and the derived tables. -/
theorem Scope.orders_ne_nil_of_core [BEq σ] {sc : Scope σ} {q : Query}
    (h : (sc.core s c).result = .ok q) {r : Query} (hr : q.Draws r) :
    ∀ w ∈ r.windows, w.orders ≠ [] := by
  have h := core_eq_ok h
  suffices hlevels : ∃ levels, q.HasLevels levels ∧
      ∀ l ∈ levels, ∀ w ∈ l.1, w.orders ≠ [] by
    obtain ⟨levels, hlevels, hall⟩ := hlevels
    exact (hlevels fun l => ∀ w ∈ l.1, w.orders ≠ []).2 hall r hr
  cases hstrategy : (Shape.of s c).strategy with
  | count =>
    rw [hstrategy] at h
    obtain ⟨orders, groups, horders, -, hlevels⟩ := count_levels h
    have hne : orders ≠ [] := mt (keys_eq_nil horders).1 (pageKeys_ne_nil _ _)
    exact ⟨_, hlevels, by simpa using hne⟩
  | distinctOrder =>
    rw [hstrategy] at h
    obtain ⟨orders, partition, groups, between, horders, -, -, hbetween, hlevels⟩ :=
      distinctOrder_levels h
    have hne : orders ≠ [] :=
      mt (keys_eq_nil horders).1 (Shape.orders_ne_nil_of_strategy hstrategy)
    refine ⟨_, hlevels, ?_⟩
    simp only [List.mem_cons, List.mem_append, List.not_mem_nil, or_false]
    rintro l (rfl | hl | rfl)
    · simp
    · rw [hbetween l hl]
      simp
    · simpa using hne
  | paginated =>
    rw [hstrategy] at h
    obtain ⟨ranking, keys, orders, groups, hkeys, horders, -, hlevels⟩ := paginated_levels h
    have hne : orders ≠ [] := by
      refine mt (keys_eq_nil horders).1 ?_
      rcases hkeys with hkeys | hkeys
      · exact Shape.denseKeys_ne_nil hkeys
      · exact SelectBody.rowKeys_ne_nil hkeys
    exact ⟨_, hlevels, by simpa using hne⟩
  | plain =>
    rw [hstrategy] at h
    obtain ⟨groups, -, hlevels⟩ := plain_levels h
    exact ⟨_, hlevels, by simp⟩

end

/-! ## Selects -/

theorem Query.Within.draws {lex : Lexicon} {p : Query → Prop} {q r : Query} (h : q.Within lex p)
    (hr : q.Draws r) : r.Within lex p := by
  induction hr with
  | refl => exact h
  | tail _ hstep ih =>
    obtain ⟨name, hrows⟩ := hstep
    exact ih.derived hrows

namespace Select

variable {options : Options} {s : Select} {q r : Query}

/-- **Every query inside of a compiled one** is the query of a select, or a derived table below
it. -/
theorem exists_draws_of_holds (h : (s.compile options).result = .ok q)
    (hr : Relation.ReflTransGen Query.Holds q r) :
    ∃ (sub : Select) (q' : Query), (sub.compile options).result = .ok q' ∧ q'.Draws r := by
  induction hr with
  | refl => exact ⟨s, q, h, .refl⟩
  | tail _ hholds ih =>
    obtain ⟨sub, q', hsub, hdraws⟩ := ih
    rcases hholds with ⟨name, hrows⟩ | ⟨e, he, hmem⟩
    · exact ⟨sub, q', hsub, hdraws.tail ⟨name, hrows⟩⟩
    · have hwithin := within_compile (p := fun _ => True) (Lexicon.serves_all _)
        (SelectBody.within_all fun _ _ _ _ => trivial) hsub
      obtain ⟨sub', -, hsub'⟩ := ((hwithin.draws hdraws).own.exprs e he).subqueries _ hmem
      exact ⟨sub', _, hsub', .refl⟩

theorem has_sql_of_holds (h : (s.compile options).result = .ok q)
    (hr : Relation.ReflTransGen Query.Holds q r) :
    ∃ text, Statement.sql options (.select s) = .ok text ∧
      Has text (r.sql options.collation) := by
  refine ⟨_, sql_eq h, ?_⟩
  rcases Relation.reflTransGen_iff_eq_or_transGen.1 hr with rfl | hr
  · exact Has.refl _
  · exact (Query.has_sql_of_encloses _ hr).trans (((Has.refl _).right _).left _)

/-- **Every window has an order**, at any depth of the query that a select is compiled to. In the
text of the statement the order stands in the parentheses of the window. -/
theorem windows_ordered (h : (s.compile options).result = .ok q)
    (hr : Relation.ReflTransGen Query.Holds q r) {w : Window Query} (hw : w ∈ r.windows) :
    w.orders ≠ [] ∧ ∃ text partition, Statement.sql options (.select s) = .ok text ∧
      Has text (w.ranking.keyword ++ "() OVER (" ++ partition ++ "ORDER BY " ++
        Text.join ", " (w.orders.map fun k =>
          (k.map (Query.sql options.collation)).sql options.collation) ++ ")") := by
  obtain ⟨sub, q', hsub, hdraws⟩ := exists_draws_of_holds h hr
  obtain ⟨orders, c, -, -, hcore⟩ := exists_core hsub
  have horders : w.orders ≠ [] := Scope.orders_ne_nil_of_core hcore hdraws w hw
  obtain ⟨text, htext, hhas⟩ := has_sql_of_holds h hr
  obtain ⟨partition, hsql⟩ := Window.exists_sql options.collation
    (w := w.map (Query.sql options.collation)) (by simpa [Window.map] using horders)
  refine ⟨horders, text, partition, htext, hhas.trans ?_⟩
  have hwindow := Query.has_window options.collation hw
  rw [hsql, Window.map, List.map_map] at hwindow
  exact hwindow

/-- Rows whose column is on a page of distinct rows that have no order and no table. -/
def untabledInside : Select :=
  .of
    { cores :=
        [{ projections := [.star]
           source := some (.table { name := "t" })
           wheres :=
             [.inSubquery (.named "a")
               (.of
                 { cores := [{ projections := [.star], source := none, distinct := true }]
                   offset := some (.int 1) })
               false] }] }

/-- The rows of the page, ranked by nothing in particular. -/
def untabledRows : Query :=
  .of
    { distinct := true
      columns :=
        [[.ranked ⟨.denseRank, [], [⟨.raw "(SELECT NULL)", some .asc⟩]⟩ "__rn"], [.expr .star]] }

/-- The query of the page. -/
def untabledPage : Query :=
  .of
    { columns := [[.expr (.allOf "__rnt")]]
      rows := some (.derived untabledRows "__rnt")
      filters := [.binary (.qualified "__rnt" "__rn") .gt (.grouping (.int 1))]
      orders := [⟨.qualified "__rnt" "__rn", some .asc⟩] }

/-- The query of the rows. -/
def untabledInsideQuery : Query :=
  .of
    { columns := [[.expr .star]]
      rows := some (.source (.table { name := "t" }) none)
      filters := [.inSubquery (.named "a") untabledPage false] }

theorem windows_ordered_untabledInside :
    (untabledInside.compile {}).result = .ok untabledInsideQuery ∧
      Relation.ReflTransGen Query.Holds untabledInsideQuery untabledRows ∧
      ∃ w ∈ untabledRows.windows, w.ranking = .denseRank ∧
        w.orders ≠ [] ∧ ∃ text partition, Statement.sql {} (.select untabledInside) = .ok text ∧
          Has text ("DENSE_RANK" ++ "() OVER (" ++ partition ++ "ORDER BY " ++
            Text.join ", " (w.orders.map fun k =>
              (k.map (Query.sql "Latin1_General_CS_AS_WS")).sql "Latin1_General_CS_AS_WS") ++
            ")") := by
  have hcompile : (untabledInside.compile {}).result = .ok untabledInsideQuery := rfl
  have hpage : untabledInsideQuery.Holds untabledPage :=
    Query.holds_of_filter (e := .inSubquery (.named "a") untabledPage false) List.mem_cons_self
      (List.mem_append_right _ List.mem_cons_self)
  have hholds : Relation.ReflTransGen Query.Holds untabledInsideQuery untabledRows :=
    .tail (.single hpage) (.inl ⟨"__rnt", rfl⟩)
  exact ⟨hcompile, hholds, _, List.mem_cons_self, rfl,
    windows_ordered hcompile hholds List.mem_cons_self⟩

end Select

end Transact
