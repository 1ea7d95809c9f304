import Transact.Proofs.DistinctOrder
import Transact.Proofs.Outcome
import Transact.Proofs.Plan.Builds
import Transact.Proofs.Sql.Token

/-!
# Two ways to ask for distinct rows

Distinct rows are asked for by the quantifier of a core or by a mark on its first projection.
`Core.quantified` has the quantifier in place of the mark.

* `Scope.core_quantified`: outside of pagination the two are compiled alike.
* `Scope.paginated_quantified_ne`: a page is numbered without regard to the mark, so the texts of
  the two are different.
* `Scope.getLast?_sql_core`: a foreign order can be told from the last character of the text. The
  mark hides an alias below it, so that an order may be foreign with the mark only.
* `Select.sql_quantified_iff`: when the SQL of a select is the same with mark and quantifier.
-/

set_option autoImplicit false

namespace Transact

/-! ## Marks -/

namespace Expr

variable {σ : Type}

theorem unmarked_unmarked : ∀ p : Expr σ, p.unmarked.unmarked = p.unmarked
  | .distinct e => by rw [unmarked, unmarked_unmarked e]
  | .alias e _ => by rw [unmarked, unmarked, unmarked_unmarked e]
  | .column _ | .wildcard _ | .literal _ | .typed _ _ | .aggregate _ _ _ | .call _ _
  | .binary _ _ _ | .not _ | .isNull _ _ | .inList _ _ _ | .inSubquery _ _ _
  | .grouping _ | .caseSensitive _ | .raw _ => rfl

theorem isMarked_unmarked : ∀ p : Expr σ, p.unmarked.isMarked = false
  | .distinct e => isMarked_unmarked e
  | .alias e _ => isMarked_unmarked e
  | .column _ | .wildcard _ | .literal _ | .typed _ _ | .aggregate _ _ _ | .call _ _
  | .binary _ _ _ | .not _ | .isNull _ _ | .inList _ _ _ | .inSubquery _ _ _
  | .grouping _ | .caseSensitive _ | .raw _ => rfl

theorem wildcardTable?_unmarked : ∀ p : Expr σ, p.unmarked.wildcardTable? = p.wildcardTable?
  | .distinct e => wildcardTable?_unmarked e
  | .alias e _ => wildcardTable?_unmarked e
  | .column _ | .wildcard _ | .literal _ | .typed _ _ | .aggregate _ _ _ | .call _ _
  | .binary _ _ _ | .not _ | .isNull _ _ | .inList _ _ _ | .inSubquery _ _ _
  | .grouping _ | .caseSensitive _ | .raw _ => rfl

theorem normalized_unmarked (p : Expr σ) : p.unmarked.normalized = p.normalized := by
  rw [normalized, unmarked_unmarked, normalized]

/-- An alias that can be seen is not changed by taking marks away. -/
theorem alias?_unmarked {p : Expr σ} {name : String} (h : p.alias? = some name) :
    p.unmarked.alias? = some name := by
  obtain ⟨e, rfl⟩ := alias?_eq_some.1 h
  rfl

end Expr

section

variable {σ τ : Type}

/-- The core with the quantifier in place of the mark on its first projection. -/
def Core.quantified (c : Core σ) : Core σ :=
  { c with projections := c.projections.modifyHead Expr.unmarked, distinct := true }

/-- The level with the quantifier in place of the mark. -/
def SelectBody.quantified (s : SelectBody σ) : SelectBody σ :=
  { s with cores := s.cores.modifyHead Core.quantified }

/-- The select with the quantifier in place of the mark. -/
def Select.quantified (s : Select) : Select := .of s.body.quantified

theorem Core.quantified_map (f : σ → τ) (c : Core σ) :
    (c.map f).quantified = c.quantified.map f := by
  unfold quantified map
  cases c.projections <;> simp [Expr.unmarked_map]

theorem SelectBody.quantified_map (f : σ → τ) (s : SelectBody σ) :
    (s.map f).quantified = s.quantified.map f := by
  unfold quantified map
  cases s.cores <;> simp [Core.quantified_map]

theorem SelectBody.names_quantified (s : SelectBody σ) : s.quantified.names = s.names := by
  have hcore : ∀ c : Core σ, c.quantified.names = c.names := by
    intro c
    have hprojections : Expr.namesList c.quantified.projections = Expr.namesList c.projections := by
      unfold Core.quantified
      cases c.projections <;> simp [Expr.namesList, Expr.names_unmarked]
    rw [Core.names, hprojections, Core.names]
    rfl
  unfold names quantified
  cases s.cores <;> simp [hcore]

/-! ## The same query -/

/-- The core asks for distinct rows of several columns by a mark on the first of them. -/
structure Core.Marked (c : Core σ) (p q : Expr σ) (ps : List (Expr σ)) : Prop where
  projections : c.projections = p :: q :: ps
  isMarked : p.isMarked = true
  distinct : c.distinct = false

variable (sc : Scope σ) (s : SelectBody σ) {c : Core σ} {p q : Expr σ} {ps : List (Expr σ)}

theorem Shape.strategy_ne_count {sh : Shape} (hcount : sh.countOnly = false) :
    sh.strategy ≠ .count := by
  rw [strategy, hcount]
  cases sh.isDistinct <;> cases sh.foreignOrder <;> cases sh.hasOffset <;> simp

theorem Scope.distinctOrder_quantified (c : Core σ) :
    sc.distinctOrder s c.quantified = sc.distinctOrder s c := by
  have hprojections : c.quantified.projections.map Expr.unmarked =
      c.projections.map Expr.unmarked := by
    unfold Core.quantified
    cases c.projections <;> simp [Expr.unmarked_unmarked]
  unfold distinctOrder
  rw [hprojections]
  rfl

namespace Core.Marked

variable (h : c.Marked p q ps)
include h

theorem projections_quantified : c.quantified.projections = p.unmarked :: q :: ps := by
  rw [quantified, h.projections]
  rfl

theorem singleDistinct : c.singleDistinct = false := by
  rw [Core.singleDistinct, h.projections]

theorem singleDistinct_quantified : c.quantified.singleDistinct = false := by
  rw [Core.singleDistinct, h.projections_quantified]

theorem with_source (source : Option (Source σ)) :
    Core.Marked { c with source := source } p q ps :=
  ⟨h.projections, h.isMarked, h.distinct⟩

variable [BEq σ]

theorem countOnly : (Shape.of s c).countOnly = false := by
  rw [Shape.of, Core.countOnly, h.projections]

theorem countOnly_quantified : (Shape.of s c.quantified).countOnly = false := by
  rw [Shape.of, Core.countOnly, h.projections_quantified]

theorem strategy : (Shape.of s c).strategy =
    if (Shape.of s c).foreignOrder then .distinctOrder
    else if s.offset.isSome then .paginated else .plain := by
  have hdistinct : (Shape.of s c).isDistinct = true := by
    simp [Shape.of, h.projections, h.isMarked]
  rw [Shape.strategy, h.countOnly, hdistinct]
  rfl

theorem strategy_quantified : (Shape.of s c.quantified).strategy =
    if (Shape.of s c.quantified).foreignOrder then .distinctOrder
    else if s.offset.isSome then .paginated else .plain := by
  rw [Shape.strategy, h.countOnly_quantified]
  rfl

/-- The strategies are the same unless the order is foreign with one of mark and quantifier. -/
theorem strategy_quantified_eq
    (hforeign : (Shape.of s c.quantified).strategy = .distinctOrder ↔
      (Shape.of s c).strategy = .distinctOrder) :
    (Shape.of s c.quantified).strategy = (Shape.of s c).strategy := by
  rw [h.strategy, h.strategy_quantified] at hforeign ⊢
  revert hforeign
  cases (Shape.of s c).foreignOrder <;> cases (Shape.of s c.quantified).foreignOrder <;>
    cases s.offset.isSome <;> simp

/-- A mark that hides no alias does not change what the order can refer to. -/
theorem foreignOrder_quantified (halias : p.unmarked.alias? = p.alias?) :
    (Shape.of s c.quantified).foreignOrder = (Shape.of s c).foreignOrder := by
  have hcovered : ∀ key : Expr σ,
      isCovered c.quantified.projections key = isCovered c.projections key := by
    intro key
    rw [h.projections_quantified, h.projections]
    simp only [isCovered, List.filterMap_cons, List.map_cons, p.wildcardTable?_unmarked, halias,
      p.normalized_unmarked]
  simp only [Shape.of, hcovered]

end Core.Marked

variable [BEq σ]

/-- Several columns are arranged as they stand. -/
theorem Shape.plainArrangement_eq (hsingle : c.singleDistinct = false) :
    (Shape.of s c).groupsToLimit = false ∧
      (Shape.of s c).plainArrangement s c = ⟨c.projections, c.groups, s.orders⟩ := by
  simp [plainArrangement, groupsToLimit, limitsWholeTable, Shape.of, hsingle]

theorem Scope.plain_quantified (h : c.Marked p q ps) :
    sc.plain (Shape.of s c.quantified) s c.quantified = sc.plain (Shape.of s c) s c := by
  obtain ⟨hgroups, harranged⟩ := Shape.plainArrangement_eq s h.singleDistinct
  obtain ⟨hgroups', harranged'⟩ := Shape.plainArrangement_eq s h.singleDistinct_quantified
  simp only [plain, hgroups, harranged, hgroups', harranged', h.projections,
    h.projections_quantified, List.head?_cons, Option.any_some, h.isMarked, p.isMarked_unmarked,
    h.distinct, Bool.false_eq_true, if_false, if_true, List.modifyHead_cons]
  rfl

/-- **Outside of pagination** mark and quantifier are compiled alike. -/
theorem Scope.core_quantified (h : c.Marked p q ps)
    (hstrategy : (Shape.of s c.quantified).strategy = (Shape.of s c).strategy)
    (hpaginated : (Shape.of s c).strategy ≠ .paginated) :
    (sc.core s c.quantified).result = (sc.core s c).result := by
  rw [core_result, core_result, hstrategy]
  cases hs : (Shape.of s c).strategy with
  | count => exact absurd hs (Shape.strategy_ne_count (h.countOnly s))
  | paginated => exact absurd hs hpaginated
  | distinctOrder => rw [distinctOrder_quantified]
  | plain =>
    have hcorrelated : ∀ c' : Core σ, (c'.correlated >>= sc.plain (Shape.of s c') s).result =
        (sc.plain (Shape.of s { c' with source := c'.source.map fun s => s.correlated.1 }) s
          { c' with source := c'.source.map fun s => s.correlated.1 }).result := by
      intro c'
      rw [Trace.bind_ok (Core.correlated_eq_ok.2 rfl), Shape.of_correlated]
    have hsame := sc.plain_quantified s (h.with_source (c.source.map fun s => s.correlated.1))
    show (c.quantified.correlated >>= _).result = (c.correlated >>= _).result
    rw [hcorrelated, hcorrelated, ← hsame]
    rfl

/-! ## Different pages -/

namespace QueryBody

variable (collation : String)

/-- The text of a query up to its rows. -/
def leadText (top : Option (Expr String)) (columns : List (Column String)) : String :=
  Text.join " " ("SELECT" :: topClause collation top ++
    [Text.join ", " (columns.map (Column.sql collation))])

theorem exists_join_cons (sep s : String) (l : List String) :
    ∃ tail, Text.join sep (s :: l) = s ++ tail := by
  cases l with
  | nil => exact ⟨"", String.append_empty.symm⟩
  | cons t l => exact ⟨sep ++ Text.join sep (t :: l), by rw [Text.join, String.append_assoc]⟩

theorem leadText_eq (top : Option (Expr String)) (columns : List (Column String)) :
    leadText collation top columns = Text.join " " ("SELECT" :: topClause collation top) ++ " " ++
      Text.join ", " (columns.map (Column.sql collation)) := by
  rw [leadText, Sql.join_append _ _ [] (List.cons_ne_nil _ _)]
  rfl

/-- The text of a query that selects from another one. -/
theorem exists_sql_derived (top : Option (Expr String)) (columns : List (Column String))
    (rows name : String) (filters : List (Expr String)) (orders : List (Key String)) :
    ∃ tail, sql collation
        { top := top
          columns := [columns]
          rows := some (.derived rows name)
          filters := filters
          orders := orders } =
      leadText collation top columns ++ " FROM (" ++ (rows ++ tail) := by
  obtain ⟨tail, htail⟩ := exists_join_cons " "
    ("FROM " ++ ("(" ++ rows ++ ") AS " ++ Sql.name name))
    (clause "WHERE" " AND " (Expr.sqlList collation filters) ++
      clause "ORDER BY" ", " (orders.map (Key.sql collation)))
  refine ⟨") AS " ++ Sql.name name ++ tail, ?_⟩
  have hparts : sql collation
      { top := top
        columns := [columns]
        rows := some (.derived rows name)
        filters := filters
        orders := orders } =
      Text.join " " (("SELECT" :: topClause collation top ++
          [Text.join ", " (columns.map (Column.sql collation))]) ++
        ("FROM " ++ ("(" ++ rows ++ ") AS " ++ Sql.name name)) ::
          (clause "WHERE" " AND " (Expr.sqlList collation filters) ++
            clause "ORDER BY" ", " (orders.map (Key.sql collation)))) := by
    simp [sql, Rows.sql, clause, Expr.sqlList, Text.join]
  rw [hparts, Sql.join_append _ _ _ (by simp), htail, leadText]
  simp only [String.append_assoc]
  rfl

/-- The text of a query without a limit that ranks its rows. -/
theorem exists_sql_ranked {b : QueryBody String} (htop : b.top = none) {w : Window String}
    {name : String} {blocks : List (List (Column String))}
    (hcolumns : b.columns = [.ranked w name] :: blocks) :
    ∃ tail, sql collation b =
      "SELECT " ++ ((if b.distinct then "DISTINCT" else w.ranking.keyword) ++ tail) := by
  unfold sql
  rw [htop, hcolumns]
  cases b.distinct with
  | true =>
    obtain ⟨tail, htail⟩ := exists_join_cons " " "DISTINCT" _
    exact ⟨tail, congrArg ("SELECT " ++ ·) htail⟩
  | false =>
    have hwindow : ∃ tail,
        w.sql collation ++ " AS " ++ Sql.name name = w.ranking.keyword ++ tail := by
      unfold Window.sql
      simp only [String.append_assoc]
      exact ⟨_, rfl⟩
    obtain ⟨ranked, hranked⟩ := hwindow
    obtain ⟨block, hblock⟩ := exists_join_cons ", " (w.sql collation ++ " AS " ++ Sql.name name)
      (blocks.map fun block => Text.join ", " (block.map (Column.sql collation)))
    obtain ⟨tail, htail⟩ := exists_join_cons " " (Text.join ", "
      ((w.sql collation ++ " AS " ++ Sql.name name) ::
        blocks.map fun block => Text.join ", " (block.map (Column.sql collation)))) _
    refine ⟨ranked ++ (block ++ tail), (congrArg ("SELECT " ++ ·) htail).trans ?_⟩
    refine congrArg ("SELECT " ++ ·) ?_
    rw [hblock, hranked, String.append_assoc, String.append_assoc]
    rfl

end QueryBody

omit [BEq σ] in
theorem Scope.page_sql {ranking : Ranking} {keys : List (SortKey σ)} {groups : List (Expr σ)}
    {window : Window Query} {frame : QueryBody Query}
    (hwindow : (sc.window ranking [] keys).result = .ok window)
    (hframe : (sc.frame s c groups).result = .ok frame) (collation : String) (d : Bool)
    (top : Option (Expr Query)) (outer filters : List (Expr Query)) (columns : List (Column Query))
    (orders : List (Key Query)) :
    ∃ tail, Query.sql collation (.of
        { top := top
          columns := [outer.map .expr]
          rows := some (.derived
            (.of { frame with
              distinct := d
              columns := [[.ranked window sc.names.rowNumber], columns] })
            sc.names.numbered)
          filters := filters
          orders := orders }) =
      QueryBody.leadText collation (Query.foldOption (QueryBody.sql collation) top)
          (Query.foldColumns (QueryBody.sql collation) (outer.map .expr)) ++ " FROM (" ++
        ("SELECT " ++ ((if d then "DISTINCT" else ranking.keyword) ++ tail)) := by
  obtain ⟨partition, orders', -, -, rfl⟩ := window_eq_ok.1 hwindow
  obtain ⟨rows, filters', groups', having, -, -, -, -, rfl⟩ := frame_eq_ok.1 hframe
  obtain ⟨tail, htail⟩ := QueryBody.exists_sql_derived collation
    (Query.foldOption (QueryBody.sql collation) top)
    (Query.foldColumns (QueryBody.sql collation) (outer.map .expr)) _ sc.names.numbered
    (Query.foldList (QueryBody.sql collation) filters)
    (Query.foldKeys (QueryBody.sql collation) orders)
  obtain ⟨inner, hinner⟩ := QueryBody.exists_sql_ranked collation
    (b := { distinct := d
            columns := Query.foldBlocks (QueryBody.sql collation)
              [[.ranked ⟨ranking, partition, orders'⟩ sc.names.rowNumber], columns]
            rows := Query.foldRows (QueryBody.sql collation) rows
            filters := Query.foldList (QueryBody.sql collation) filters'
            groups := Query.foldList (QueryBody.sql collation) groups'
            having := Query.foldOption (QueryBody.sql collation) having }) rfl rfl
  refine ⟨inner ++ tail, htail.trans ((String.append_right_inj _).2 ?_)⟩
  refine (congrArg (· ++ tail) hinner).trans ?_
  simp only [String.append_assoc]

/-- **The text of a page** begins like this. -/
theorem Scope.paginated_sql {sh : Shape} {query : Query} (hsingle : sh.singleDistinct = false)
    (h : (sc.paginated sh s c).result = .ok query) (collation : String) :
    ∃ top outer tail, (sc.expr? s.boundedLimit?).result = .ok top ∧
      (sc.outerColumns sh c).result = .ok outer ∧
      query.sql collation =
        QueryBody.leadText collation (Query.foldOption (QueryBody.sql collation) top)
            (Query.foldColumns (QueryBody.sql collation) (outer.map .expr)) ++ " FROM (" ++
          ("SELECT " ++ ((if c.distinct then "DISTINCT" else "ROW_NUMBER") ++ tail)) := by
  unfold paginated at h
  cases hd : c.distinct with
  | true =>
    simp only [hd, hsingle, Bool.or_false, Bool.false_and, if_true, Trace.bind_eq_ok,
      Trace.pure_result, Except.ok.injEq] at h
    obtain ⟨keys, -, top, htop, outer, houter, window, hwindow, columns, -, frame, hframe, offset,
      -, rfl⟩ := h
    obtain ⟨tail, htail⟩ := sc.page_sql s hwindow hframe collation true top outer
      (sc.names.pastOffset offset) columns [⟨sc.names.rowNumberColumn, some .asc⟩]
    exact ⟨top, outer, tail, htop, houter, htail⟩
  | false =>
    simp only [hd, hsingle, Bool.or_false, Bool.false_and, Bool.false_eq_true, if_false,
      Trace.bind_eq_ok, Trace.pure_result, Except.ok.injEq] at h
    obtain ⟨keys, -, top, htop, outer, houter, window, hwindow, columns, -, frame, hframe, offset,
      -, rfl⟩ := h
    obtain ⟨tail, htail⟩ := sc.page_sql s hwindow hframe collation false top outer
      (sc.names.pastOffset offset) columns [⟨sc.names.rowNumberColumn, some .asc⟩]
    exact ⟨top, outer, tail, htop, houter, htail⟩

/-- All columns of a table and a list of names have different texts. -/
theorem dottedName_star_ne (table a b : String) (l : List String) (x y : String) :
    Sql.dottedName table ++ ".*" ++ x ≠
      Text.join ", " (Sql.name a :: Sql.name b :: l) ++ y := by
  obtain ⟨n, rest, hn⟩ : ∃ n rest, (Sql.dottedName table ++ ".*" ++ x).toList =
      (Sql.name n).toList ++ '.' :: rest := by
    unfold Sql.dottedName
    cases hsplit : Text.split '.' table.toList with
    | nil => exact absurd hsplit (Sql.split_ne_nil _ _)
    | cons piece pieces =>
      refine ⟨String.ofList piece, ?_⟩
      cases pieces with
      | nil => exact ⟨'*' :: x.toList, by simp [Text.join, Sql.name]⟩
      | cons next pieces =>
        exact ⟨_, by simp [Text.join, Sql.name]; rfl⟩
  intro h
  obtain ⟨rest', hrest'⟩ : ∃ rest', (Text.join ", " (Sql.name a :: Sql.name b :: l) ++ y).toList =
      (Sql.name a).toList ++ ',' :: rest' :=
    ⟨' ' :: (Text.join ", " (Sql.name b :: l)).toList ++ y.toList, by simp [Text.join]⟩
  rw [h, hrest'] at hn
  have htokens := congrArg (Sql.lex .between) hn.symm
  rw [Sql.lex_name n (by simp), Sql.lex_name a (by simp)] at htokens
  -- after the first name one text goes on with a dot and the other with a comma
  have htail := (List.cons.inj htokens).2
  rw [Sql.lex_between_cons, Sql.lex_between_cons] at htail
  cases (List.cons.inj htail).1

theorem QueryBody.leadText_star_ne (collation : String) (top : Option (Expr String))
    (table a b : String) (columns : List (Column String)) (x y : String) :
    leadText collation top [.expr (.allOf table)] ++ x ≠
      leadText collation top (.expr (.named a) :: .expr (.named b) :: columns) ++ y := by
  rw [leadText_eq, leadText_eq]
  intro htexts
  simp only [String.append_assoc] at htexts
  have hrest := (String.append_right_inj _).1 ((String.append_right_inj _).1 htexts)
  exact dottedName_star_ne table a b _ x y hrest

/-- The outer columns of the two pages are the same, unless the mark hides the alias without which
the columns of a join cannot be listed. -/
theorem Scope.outer_quantified (h : c.Marked p q ps) {outer outer' : List (Expr Query)}
    (houter : (sc.outerColumns (Shape.of s c) c).result = .ok outer)
    (houter' : (sc.outerColumns (Shape.of s c.quantified) c.quantified).result = .ok outer') :
    outer = outer' ∨ outer = [.allOf sc.names.numbered] ∧
      ∃ a b names, outer' = (a :: b :: names).map .named := by
  have hquantified := outer_cases h.singleDistinct_quantified houter'
  rw [h.projections_quantified] at hquantified
  have hmarked := outer_cases h.singleDistinct houter
  rw [h.projections] at hmarked
  rcases hmarked with ⟨hjoin, hall, rfl⟩ | ⟨-, -, column, hps, -⟩ | ⟨-, -, rfl⟩
  · obtain ⟨name, hname⟩ := Option.isSome_iff_exists.1 (hall p List.mem_cons_self)
    rcases hquantified with ⟨-, -, rfl⟩ | ⟨-, -, column, hps, -⟩ | ⟨hjoin', -, -⟩
    · left
      simp only [List.filterMap_cons, hname, Expr.alias?_unmarked hname]
    · simp at hps
    · refine absurd ?_ hjoin'
      have hsource : c.quantified.source = c.source := rfl
      simpa [Shape.of, h.projections, h.projections_quantified, hsource, hname,
        Expr.alias?_unmarked hname] using hjoin
  · simp at hps
  · rcases hquantified with ⟨-, hall, rfl⟩ | ⟨-, -, column, hps, -⟩ | ⟨-, -, rfl⟩
    · right
      obtain ⟨a, ha⟩ := Option.isSome_iff_exists.1 (hall _ List.mem_cons_self)
      obtain ⟨b, hb⟩ := Option.isSome_iff_exists.1
        (hall q (List.mem_cons_of_mem _ List.mem_cons_self))
      refine ⟨rfl, a, b, ps.filterMap Expr.alias?, ?_⟩
      simp only [List.filterMap_cons, ha, hb]
    · simp at hps
    · exact .inl rfl

/-- **Pages of marked rows** and of rows under the quantifier have different texts: the rows of the
one are numbered, those of the other are distinct. -/
theorem Scope.paginated_quantified_ne (h : c.Marked p q ps) {m n : Query}
    (hm : (sc.paginated (Shape.of s c) s c).result = .ok m)
    (hn : (sc.paginated (Shape.of s c.quantified) s c.quantified).result = .ok n)
    (collation : String) : m.sql collation ≠ n.sql collation := by
  obtain ⟨top, outer, tail, htop, houter, hm⟩ := sc.paginated_sql s h.singleDistinct hm collation
  obtain ⟨top', outer', tail', htop', houter', hn⟩ :=
    sc.paginated_sql s h.singleDistinct_quantified hn collation
  obtain rfl : top = top' := Except.ok.inj (htop.symm.trans htop')
  rw [hm, hn, h.distinct]
  intro htexts
  rcases sc.outer_quantified s h houter houter' with rfl | ⟨rfl, a, b, names, rfl⟩
  · -- `SELECT ` has seven characters, so the next one is that of `ROW_NUMBER` or `DISTINCT`
    have hhead := congrArg (fun text => text.toList[7]?) ((String.append_right_inj _).1 htexts)
    simp [Core.quantified] at hhead
  · rw [String.append_assoc, String.append_assoc] at htexts
    exact QueryBody.leadText_star_ne collation _ _ a b _ _ _ htexts

/-! ## The end of a text -/

namespace QueryBody

variable (collation : String)

/-- A text ends in the last key of the order. -/
theorem exists_sql_ordered {b : QueryBody String} {k : Key String}
    (hk : b.orders.getLast? = some k) : ∃ lead, sql collation b = lead ++ k.sql collation := by
  obtain ⟨ks, hks⟩ := List.getLast?_eq_some_iff.1 hk
  have hclause : ∃ lead, clause "ORDER BY" ", " (b.orders.map (Key.sql collation)) =
      [lead ++ k.sql collation] := by
    rw [hks, List.map_append, List.map_singleton, clause, if_neg (by simp)]
    cases ks with
    | nil => exact ⟨"ORDER BY ", rfl⟩
    | cons k' ks =>
      refine ⟨"ORDER BY " ++ (Text.join ", " ((k' :: ks).map (Key.sql collation)) ++ ", "), ?_⟩
      rw [Sql.join_append _ _ [] (by simp)]
      simp only [String.append_assoc]
      rfl
  obtain ⟨lead, hlead⟩ := hclause
  unfold sql
  rw [hlead, Sql.join_append _ _ [] (by simp), Text.join, ← String.append_assoc]
  exact ⟨_, rfl⟩

/-- A text ends in the direction of the last key, or in its name if it has no direction. -/
theorem getLast?_sql {b : QueryBody String} {k : Key String} (hk : b.orders.getLast? = some k)
    (hname : k.direction = none → ∃ name, k.expr = .named name) :
    (sql collation b).toList.getLast? = some (if k.direction.isSome then 'C' else ']') := by
  obtain ⟨lead, hlead⟩ := exists_sql_ordered collation hk
  obtain ⟨e, direction⟩ := k
  rw [hlead, Key.sql]
  cases direction with
  | none =>
    obtain ⟨name, rfl⟩ := hname rfl
    have hsql : ((Expr.named name).sql collation).toList =
        ('[' :: Text.double ']' name.toList) ++ [']'] := by
      simp [Expr.named, Expr.sql, ColumnRef.sql, Sql.name, Sql.bracketed]
    rw [Option.elim_none, String.append_empty, String.toList_append, hsql, ← List.append_assoc,
      List.getLast?_concat]
    rfl
  | some d => cases d <;> simp [Direction.keyword]

end QueryBody

theorem Query.foldKeys_eq {α : Type} (level : QueryBody α → α) : ∀ ks : List (Key Query),
    foldKeys level ks = ks.map fun k => ⟨foldExpr level k.expr, k.direction⟩
  | [] => rfl
  | ⟨e, direction⟩ :: ks => by rw [foldKeys, foldKeys_eq level ks, List.map_cons]

/-- The text of a query ends in the direction of its last key, or in the name. -/
theorem Query.getLast?_sql (collation : String) {query : Query} {k : Key Query}
    (hk : query.body.orders.getLast? = some k)
    (hname : k.direction = none → ∃ name, k.expr = .named name) :
    (query.sql collation).toList.getLast? = some (if k.direction.isSome then 'C' else ']') := by
  obtain ⟨distinct, top, columns, rows, filters, groups, having, orders⟩ := query
  have hlast : (foldKeys (QueryBody.sql collation) orders).getLast? =
      some ⟨foldExpr (QueryBody.sql collation) k.expr, k.direction⟩ := by
    rw [foldKeys_eq, List.getLast?_map]
    exact congrArg (Option.map _) hk
  have hnamed : k.direction = none →
      ∃ name, foldExpr (QueryBody.sql collation) k.expr = .named name := by
    intro hnone
    obtain ⟨name, he⟩ := hname hnone
    exact ⟨name, by rw [he]; rfl⟩
  exact QueryBody.getLast?_sql collation (b := ⟨distinct, _, _, _, _, _, _, _⟩) hlast hnamed

omit [BEq σ] in
/-- The last key has the direction of the last sort key. -/
theorem Scope.getLast?_keys : ∀ {ks : List (SortKey σ)} {ks' : List (Key Query)},
    (sc.keys ks).result = .ok ks' → ks ≠ [] → ∃ e d, ks'.getLast? = some ⟨e, some d⟩
  | [k], ks', h, _ => by
    simp only [keys, Trace.bind_eq_ok, Trace.pure_result, Except.ok.injEq] at h
    obtain ⟨e, -, rest, rfl, rfl⟩ := h
    exact ⟨e, k.direction, rfl⟩
  | k :: k' :: ks, ks', h, _ => by
    rw [keys] at h
    simp only [Trace.bind_eq_ok, Trace.pure_result, Except.ok.injEq] at h
    obtain ⟨e, -, rest, hrest, rfl⟩ := h
    obtain ⟨e', d, hlast⟩ := getLast?_keys hrest (List.cons_ne_nil k' ks)
    exact ⟨e', d, by rw [List.getLast?_cons, hlast]; rfl⟩

omit [BEq σ] in
theorem Scope.getLast?_sql_distinctOrder {query : Query}
    (h : (sc.distinctOrder s c).result = .ok query) (collation : String) :
    (query.sql collation).toList.getLast? = some ']' := by
  unfold distinctOrder at h
  simp only [Trace.bind_eq_ok] at h
  obtain ⟨columns, -, rank, -, duplicate, -, frame, -, outer, -, top, -, offset, -, h⟩ := h
  cases offset with
  | none =>
    obtain rfl := Except.ok.inj h
    exact Query.getLast?_sql collation (k := ⟨.named sc.names.order, none⟩) rfl fun _ => ⟨_, rfl⟩
  | some offset =>
    obtain rfl := Except.ok.inj h
    exact Query.getLast?_sql collation (k := ⟨.named sc.names.offset, none⟩) rfl fun _ => ⟨_, rfl⟩

theorem Scope.getLast?_sql_paginated {sh : Shape} {query : Query}
    (h : (sc.paginated sh s c).result = .ok query) (collation : String) :
    (query.sql collation).toList.getLast? = some 'C' := by
  have hbody : query.body.orders.getLast? = some ⟨sc.names.rowNumberColumn, some .asc⟩ := by
    unfold paginated at h
    dsimp only at h
    split at h
    · simp only [Trace.bind_eq_ok] at h
      obtain ⟨keys, -, top, -, outer, -, window, -, columns, -, frame, -, offset, -, h⟩ := h
      obtain rfl := Except.ok.inj h
      rfl
    · simp only [Trace.bind_eq_ok] at h
      obtain ⟨keys, -, top, -, outer, -, window, -, columns, -, frame, -, offset, -, h⟩ := h
      obtain rfl := Except.ok.inj h
      rfl
  exact Query.getLast?_sql collation hbody (by simp)

omit [BEq σ] in
theorem Scope.getLast?_sql_plain (horders : s.orders ≠ []) {sh : Shape} {query : Query}
    (h : (sc.plain sh s c).result = .ok query) (collation : String) :
    (query.sql collation).toList.getLast? = some 'C' := by
  obtain ⟨top, columns, frame, orders, distinct, ps, -, -, -, -, hkeys, rfl⟩ := plain_builds h
  obtain ⟨e, d, hlast⟩ := sc.getLast?_keys hkeys (mt plainArrangement_orders_eq_nil.1 horders)
  exact Query.getLast?_sql collation (k := ⟨e, some d⟩) hlast (by simp)

/-- **A foreign order** can be told from the last character of the text. -/
theorem Scope.getLast?_sql_core (hcount : (Shape.of s c).countOnly = false)
    (horders : s.orders ≠ []) {query : Query}
    (hquery : (sc.core s c).result = .ok query) (collation : String) :
    (query.sql collation).toList.getLast? =
      some (if (Shape.of s c).strategy = .distinctOrder then ']' else 'C') := by
  have h := core_eq_ok hquery
  cases hs : (Shape.of s c).strategy with
  | count => exact absurd hs (Shape.strategy_ne_count hcount)
  | distinctOrder =>
    rw [hs] at h
    exact sc.getLast?_sql_distinctOrder s h collation
  | paginated =>
    rw [hs] at h
    exact sc.getLast?_sql_paginated s h collation
  | plain =>
    rw [hs] at h
    exact sc.getLast?_sql_plain s horders h collation

/-! ## Levels -/

namespace SelectBody

variable {s} {options : Options} {subquery : σ → Trace Query} {cores : List (Core σ)}

omit [BEq σ] in
theorem cores_quantified (hc : s.cores = c :: cores) :
    s.quantified.cores = c.quantified :: cores := by
  rw [quantified, hc]
  rfl

omit [BEq σ] in
theorem scope_quantified : s.quantified.scope options subquery = s.scope options subquery := by
  rw [scope, names_quantified, scope]

theorem strategy?_of_ok (hc : s.cores = c :: cores) {orders : List (SortKey σ)}
    (horders : ((s.scope options subquery).distinctKeys s.orders).result = .ok orders) :
    s.strategy? options subquery = some (Shape.of { s with orders := orders } c).strategy ∧
      s.quantified.strategy? options subquery =
        some (Shape.of { s with orders := orders } c.quantified).strategy := by
  have hquantified : ((s.scope options subquery).distinctKeys s.quantified.orders).result =
      .ok orders := horders
  rw [strategy?, strategy?, cores_quantified hc, scope_quantified, hquantified, horders, hc]
  exact ⟨rfl, rfl⟩

theorem compile_of_ok (hc : s.cores = c :: cores) {orders : List (SortKey σ)}
    (horders : ((s.scope options subquery).distinctKeys s.orders).result = .ok orders) :
    (s.compile options subquery).result =
        ((s.scope options subquery).core { s with orders := orders } c).result ∧
      (s.quantified.compile options subquery).result =
        ((s.scope options subquery).core { s with orders := orders } c.quantified).result := by
  have hquantified : ((s.scope options subquery).distinctKeys s.quantified.orders).result =
      .ok orders := horders
  rw [compile_result, compile_result, cores_quantified hc, scope_quantified,
    Trace.bind_ok hquantified, Trace.bind_ok horders, hc]
  exact ⟨rfl, rfl⟩

theorem compile_of_error {e : CompileError}
    (horders : ((s.scope options subquery).distinctKeys s.orders).result = .error e) :
    (s.quantified.compile options subquery).result = (s.compile options subquery).result := by
  have hquantified : ((s.scope options subquery).distinctKeys s.quantified.orders).result =
      .error e := horders
  rw [compile_result, compile_result, scope_quantified, Trace.bind_error hquantified,
    Trace.bind_error horders]

theorem strategy?_quantified (hc : s.cores = c :: cores) (h : c.Marked p q ps)
    (halias : p.unmarked.alias? = p.alias?) :
    s.quantified.strategy? options subquery = s.strategy? options subquery := by
  cases horders : ((s.scope options subquery).distinctKeys s.orders).result with
  | error e =>
    have hquantified : ((s.scope options subquery).distinctKeys s.quantified.orders).result =
      .error e := horders
    rw [strategy?, strategy?, scope_quantified, hquantified, horders, cores_quantified hc, hc]
  | ok orders =>
    obtain ⟨hmarked, hquantified⟩ := strategy?_of_ok hc horders
    rw [hmarked, hquantified, h.strategy_quantified, h.strategy,
      h.foreignOrder_quantified _ halias]

/-- **Levels that are not paginated** are compiled alike with mark and quantifier. -/
theorem compile_quantified (hc : s.cores = c :: cores) (h : c.Marked p q ps)
    (hstrategy : s.quantified.strategy? options subquery = s.strategy? options subquery)
    (hpaginated : s.strategy? options subquery ≠ some .paginated) :
    (s.quantified.compile options subquery).result = (s.compile options subquery).result := by
  cases horders : ((s.scope options subquery).distinctKeys s.orders).result with
  | error e => exact compile_of_error horders
  | ok orders =>
    obtain ⟨hmarked, hquantified⟩ := strategy?_of_ok hc horders
    obtain ⟨hcompile, hcompile'⟩ := compile_of_ok hc horders
    rw [hmarked, hquantified] at hstrategy
    rw [hmarked] at hpaginated
    rw [hcompile, hcompile']
    exact Scope.core_quantified _ _ h (Option.some.inj hstrategy) fun he => hpaginated (by rw [he])

/-- **Other levels** have different texts with mark and quantifier. -/
theorem compile_quantified_ne (hc : s.cores = c :: cores) (h : c.Marked p q ps)
    (hother : s.quantified.strategy? options subquery = s.strategy? options subquery →
      s.strategy? options subquery = some .paginated) {m n : Query}
    (hm : (s.compile options subquery).result = .ok m)
    (hn : (s.quantified.compile options subquery).result = .ok n) (collation : String) :
    m.sql collation ≠ n.sql collation := by
  cases horders : ((s.scope options subquery).distinctKeys s.orders).result with
  | error e =>
    rw [compile_result, Trace.bind_error horders] at hm
    cases hm
  | ok orders =>
    obtain ⟨hmarked, hquantified⟩ := strategy?_of_ok hc horders
    obtain ⟨hcompile, hcompile'⟩ := compile_of_ok hc horders
    rw [hmarked, hquantified] at hother
    rw [hcompile] at hm
    rw [hcompile'] at hn
    by_cases hstrategy : (Shape.of { s with orders := orders } c.quantified).strategy =
        (Shape.of { s with orders := orders } c).strategy
    · have hpaginated := Option.some.inj (hother (congrArg some hstrategy))
      have hm := Scope.core_eq_ok hm
      have hn := Scope.core_eq_ok hn
      rw [hpaginated, ← Shape.of_correlated] at hm
      rw [hstrategy, hpaginated, ← Shape.of_correlated] at hn
      exact Scope.paginated_quantified_ne _ _ (h.with_source _) hm hn collation
    · -- only an order can be foreign, so there is one, and its direction ends one of the texts
      have hne : orders ≠ [] := by
        rintro rfl
        refine hstrategy ?_
        rw [h.strategy_quantified, h.strategy]
        rfl
      intro htexts
      have hlast := Scope.getLast?_sql_core _ { s with orders := orders } (h.countOnly _) hne hm
        collation
      rw [htexts, Scope.getLast?_sql_core _ { s with orders := orders } (h.countOnly_quantified _)
        hne hn collation] at hlast
      refine hstrategy (h.strategy_quantified_eq _ ?_)
      split at hlast <;> split at hlast <;> simp_all

end SelectBody

end

/-! ## Selects -/

theorem Core.Marked.map {σ τ : Type} (f : σ → τ) {c : Core σ} {p q : Expr σ} {ps : List (Expr σ)}
    (h : c.Marked p q ps) : (c.map f).Marked (p.map f) (q.map f) (ps.map (·.map f)) where
  projections := by
    rw [Core.map, h.projections]
    rfl
  isMarked := by rw [Expr.isMarked_map, h.isMarked]
  distinct := h.distinct

/-- A select that has no text has failed for want of a core. -/
theorem Select.sql_eq_error {options : Options} {s : Select}
    (h : ∀ text, Statement.sql options (.select s) ≠ .ok text) :
    Statement.sql options (.select s) = .error .noCore := by
  cases hs : Statement.sql options (.select s) with
  | ok text => exact absurd hs (h text)
  | error e => rw [Statement.sql_error hs]

theorem Select.level_quantified (options : Options) (s : Select) :
    s.quantified.level options = (s.level options).quantified :=
  (s.body.quantified_map (compiled options)).symm

theorem Select.strategy?_quantified (options : Options) (s : Select) :
    s.quantified.strategy? options =
      (s.level options).quantified.strategy? options Compiled.query := by
  rw [strategy?, level_quantified]

theorem Select.compile_quantified (options : Options) (s : Select) :
    s.quantified.compile options =
      (s.level options).quantified.compile options Compiled.query := by
  rw [compile_eq, level_quantified]

/-- **Mark and quantifier ask for the same** in selects of several columns that are compiled by the
same strategy with either, except in pages. Other selects have different SQL with mark and
quantifier, unless they fail with both. The strategies are the same if the mark hides no alias. -/
theorem Select.sql_quantified_iff (options : Options) {s : Select} {c : Core Select}
    {p q : Expr Select} {ps : List (Expr Select)} (hc : s.body.cores.head? = some c)
    (h : c.Marked p q ps) :
    (p.unmarked.alias? = p.alias? → s.quantified.strategy? options = s.strategy? options) ∧
    (Statement.sql options (.select s.quantified) = Statement.sql options (.select s) ↔
      (s.quantified.strategy? options = s.strategy? options ∧
          s.strategy? options ≠ some .paginated) ∨
        ∀ text, Statement.sql options (.select s) ≠ .ok text ∧
          Statement.sql options (.select s.quantified) ≠ .ok text) := by
  obtain ⟨cores, hcores⟩ : ∃ cores, s.body.cores = c :: cores :=
    ⟨s.body.cores.tail, (List.cons_head?_tail hc).symm⟩
  have hmarked := h.map (compiled options)
  have hc' := level_cores options hcores
  refine ⟨fun halias => ?_, fun hsame => ?_, ?_⟩
  · have hmap : ∀ e : Expr Select, (e.map (compiled options)).alias? = e.alias? := by
      intro e
      cases e <;> rfl
    rw [strategy?_quantified]
    refine SelectBody.strategy?_quantified hc' hmarked ?_
    rw [Expr.unmarked_map, hmap, hmap, halias]
  · by_contra hother
    obtain ⟨hstrategy, hfails⟩ := not_or.1 hother
    refine hfails fun text => ?_
    have hnone : Statement.sql options (.select s) ≠ .ok text := by
      intro htext
      rw [htext, sql_result, compile_quantified, Except.map_eq_ok_iff] at hsame
      rw [sql_result, compile_eq, Except.map_eq_ok_iff] at htext
      obtain ⟨m, hm, hmtext⟩ := htext
      obtain ⟨n, hn, hntext⟩ := hsame
      refine SelectBody.compile_quantified_ne hc' hmarked ?_ hm hn options.collation
        (hmtext.trans hntext.symm)
      rw [← strategy?_quantified]
      exact fun he => by_contra fun hp => hstrategy ⟨he, hp⟩
    rw [hsame]
    exact ⟨hnone, hnone⟩
  · rintro (⟨hstrategy, hpaginated⟩ | hfails)
    · rw [strategy?_quantified] at hstrategy
      rw [sql_result, sql_result, compile_quantified, compile_eq,
        SelectBody.compile_quantified hc' hmarked hstrategy hpaginated]
    · rw [sql_eq_error fun text => (hfails text).1, sql_eq_error fun text => (hfails text).2]

/-- A marked column and another one. -/
def markedPair (offset : Option (Expr Select)) : Select :=
  .of
    { cores :=
        [{ projections := [.distinct (.named "a"), .named "b"]
           source := some (.table { name := "t" }) }]
      offset := offset }

theorem sql_quantified_iff_markedPair :
    Statement.sql {} (.select (markedPair none).quantified) =
      Statement.sql {} (.select (markedPair none)) := by
  obtain ⟨hstrategy, hsame⟩ := Select.sql_quantified_iff {} (s := markedPair none) rfl
    ⟨rfl, rfl, rfl⟩
  refine hsame.2 (.inl ⟨hstrategy rfl, fun hpaginated => ?_⟩)
  cases hpaginated

theorem sql_quantified_ne_markedPair :
    Statement.sql {} (.select (markedPair (some (.int 1)))) =
        .ok ("SELECT [__rnt].* FROM (SELECT ROW_NUMBER() OVER (ORDER BY (SELECT NULL) ASC) AS " ++
          "[__rn], [a], [b] FROM [t]) AS [__rnt] WHERE [__rnt].[__rn] > (1) " ++
          "ORDER BY [__rnt].[__rn] ASC") ∧
      Statement.sql {} (.select (markedPair (some (.int 1))).quantified) =
        .ok ("SELECT [__rnt].* FROM (SELECT DISTINCT DENSE_RANK() OVER (ORDER BY [a] ASC, " ++
          "[b] ASC) AS [__rn], [a], [b] FROM [t]) AS [__rnt] WHERE [__rnt].[__rn] > (1) " ++
          "ORDER BY [__rnt].[__rn] ASC") := by
  decide +kernel

end Transact
