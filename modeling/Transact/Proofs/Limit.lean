import Transact.Proofs.DistinctMark
import Transact.Proofs.EnclosedOrder

/-!
# A limit only inserts a clause

A select with a limit is compiled to the text that it has without the limit, but for the clause
`TOP (n)` after the first keywords.

* `Query.untopped`: a query without the clause; `QueryBody.sql_top` compares the texts.
* `Scope.plain_unlimited`, `Scope.distinctOrder_unlimited`, `Scope.paginated_unlimited`: one lemma
  for each strategy says that without the limit the query is untopped and otherwise the same.
* `SelectBody.compile_unlimited`, `Select.compile_unlimited`: the same for levels and selects, which
  keep their strategy.
* `Select.sql_unlimited`: the two texts.
-/

set_option autoImplicit false

namespace Transact

/-! ## Texts -/

/-- The query without its limit. -/
def Query.untopped (q : Query) : Query := .of { q.body with top := none }

/-- A limit stands between the first keywords and the list of a query. -/
theorem QueryBody.sql_top (collation : String) (b : QueryBody String) (top : Expr String) :
    ∃ keywords ∈ ["SELECT ", "SELECT DISTINCT "], ∃ rest,
      QueryBody.sql collation { b with top := none } = keywords ++ rest ∧
      QueryBody.sql collation { b with top := some top } =
        keywords ++ "TOP (" ++ top.sql collation ++ ") " ++ rest := by
  -- the list of the query and the clauses after it
  let pieces := (b.rows.toList.map fun rows => "FROM " ++ rows.sql collation) ++
    clause "WHERE" " AND " (Expr.sqlList collation b.filters) ++
    clause "GROUP BY" ", " (Expr.sqlList collation b.groups) ++
    (b.having.toList.map fun e => "HAVING " ++ e.sql collation) ++
    clause "ORDER BY" ", " (b.orders.map (Key.sql collation))
  let list := Text.join ", " (b.columns.map fun block =>
    Text.join ", " (block.map (Column.sql collation)))
  refine ⟨if b.distinct then "SELECT DISTINCT " else "SELECT ", ?_,
    Text.join " " (list :: pieces), ?_, ?_⟩
  · split <;> simp
  · cases hdistinct : b.distinct <;>
      simp [QueryBody.sql, topClause, Text.join, list, pieces, ← String.toList_inj]
  · cases hdistinct : b.distinct <;>
      simp [QueryBody.sql, topClause, Text.join, list, pieces, ← String.toList_inj]

/-- The text of a query, with its limit and without. -/
theorem Query.sql_top (collation : String) {q : Query} {top : Expr Query}
    (h : q.body.top = some top) :
    ∃ keywords ∈ ["SELECT ", "SELECT DISTINCT "], ∃ rest,
      q.untopped.sql collation = keywords ++ rest ∧
      q.sql collation = keywords ++ "TOP (" ++ top.querySql collation ++ ") " ++ rest := by
  obtain ⟨keywords, hkeywords, rest, huntopped, htopped⟩ :=
    QueryBody.sql_top collation (q.body.map (Query.sql collation)) (top.map (Query.sql collation))
  refine ⟨keywords, hkeywords, rest, ?_, ?_⟩
  · rw [Query.sql_eq_body]
    exact huntopped
  · rw [Query.sql_eq_body, Expr.querySql, ← htopped]
    simp [QueryBody.map, h]

theorem Query.untopped_of_none {q : Query} (h : q.body.top = none) : q.untopped = q := by
  obtain ⟨b⟩ := q
  obtain ⟨distinct, top, columns, rows, filters, groups, having, orders⟩ := b
  obtain rfl : top = none := h
  rfl

/-! ## Strategies -/

section

variable {σ : Type} {sc : Scope σ} {s : SelectBody σ} {c : Core σ} {q : Query}

namespace Scope

theorem plain_unlimited [BEq σ] (hsingle : c.singleDistinct = false)
    (h : (sc.plain (Shape.of s c) s c).result = .ok q) :
    (sc.expr? s.limit).result = .ok q.body.top ∧
      (sc.plain (Shape.of (s.withLimit none) c) (s.withLimit none) c).result =
        .ok q.untopped := by
  obtain ⟨hgroups, harranged⟩ := Shape.plainArrangement_eq s hsingle
  obtain ⟨hgroups', harranged'⟩ := Shape.plainArrangement_eq (s.withLimit none) hsingle
  simp only [plain, hgroups, harranged, Bool.false_eq_true, if_false, Trace.bind_eq_ok] at h
  obtain ⟨top, htop, columns, hcolumns, frame, hframe, orders, horders, h⟩ := h
  obtain rfl := Except.ok.inj h
  refine ⟨htop, ?_⟩
  simp only [plain, hgroups', harranged', Bool.false_eq_true, if_false, Trace.bind_eq_ok]
  exact ⟨none, rfl, columns, hcolumns, frame, hframe, orders, horders, rfl⟩

theorem distinctOrder_unlimited (h : (sc.distinctOrder s c).result = .ok q) :
    (sc.expr? s.limit).result = .ok q.body.top ∧
      (sc.distinctOrder (s.withLimit none) c).result = .ok q.untopped := by
  simp only [distinctOrder, Trace.bind_eq_ok] at h
  obtain ⟨columns, hcolumns, rank, hrank, duplicate, hduplicate, frame, hframe, outer, houter, top,
    htop, offset, hoffset, h⟩ := h
  -- the limit is only written into the outermost query
  cases offset with
  | none =>
    obtain rfl := Except.ok.inj h
    refine ⟨htop, ?_⟩
    simp only [distinctOrder, Trace.bind_eq_ok]
    exact ⟨columns, hcolumns, rank, hrank, duplicate, hduplicate, frame, hframe, outer, houter,
      none, rfl, none, hoffset, rfl⟩
  | some offset =>
    obtain rfl := Except.ok.inj h
    refine ⟨htop, ?_⟩
    simp only [distinctOrder, Trace.bind_eq_ok]
    exact ⟨columns, hcolumns, rank, hrank, duplicate, hduplicate, frame, hframe, outer, houter,
      none, rfl, some offset, hoffset, rfl⟩

theorem paginated_unlimited [BEq σ] (h : (sc.paginated (Shape.of s c) s c).result = .ok q) :
    (sc.expr? s.boundedLimit?).result = .ok q.body.top ∧
      (sc.paginated (Shape.of (s.withLimit none) c) (s.withLimit none) c).result =
        .ok q.untopped := by
  have hsingle : (Shape.of (s.withLimit none) c).singleDistinct = (Shape.of s c).singleDistinct :=
    rfl
  unfold paginated at h ⊢
  rw [hsingle]
  -- the limit does not decide what the rows are numbered by
  by_cases hdistinct : (c.distinct || (Shape.of s c).singleDistinct) = true
  all_goals
    simp only [hdistinct, Bool.false_eq_true, if_true, if_false, Trace.bind_eq_ok] at h ⊢
    obtain ⟨keys, hkeys, top, htop, outer, houter, window, hwindow, columns, hcolumns, frame,
      hframe, offset, hoffset, h⟩ := h
    obtain rfl := Except.ok.inj h
    exact ⟨htop, keys, hkeys, none, rfl, outer, houter, window, hwindow, columns, hcolumns, frame,
      hframe, offset, hoffset, rfl⟩

end Scope

theorem Shape.strategy_unlimited {sh : Shape} (h : sh.strategy ≠ .count) :
    ({ sh with hasLimit := false } : Shape).strategy = sh.strategy := by
  unfold strategy at h ⊢
  split at h
  · exact absurd rfl h
  · rename_i hcount
    rw [if_neg hcount, if_neg (by simp)]

/-- **Without its limit** a core is compiled to the same query, but for the limit. -/
theorem Scope.core_unlimited [BEq σ] (hcount : (Shape.of s c).strategy ≠ .count)
    (hplain : (Shape.of s c).strategy = .plain → c.singleDistinct = false)
    (h : (sc.core s c).result = .ok q) :
    (sc.expr? (if (Shape.of s c).strategy = .paginated then s.boundedLimit?
      else s.limit)).result = .ok q.body.top ∧
      (sc.core (s.withLimit none) c).result = .ok q.untopped := by
  have hcore := core_eq_ok h
  have hstrategy' : (Shape.of (s.withLimit none) c).strategy = (Shape.of s c).strategy :=
    Shape.strategy_unlimited hcount
  rw [core_result, hstrategy']
  cases hstrategy : (Shape.of s c).strategy with
  | count => exact absurd hstrategy hcount
  | distinctOrder =>
    rw [hstrategy] at hcore
    exact distinctOrder_unlimited hcore
  | paginated =>
    rw [hstrategy, ← Shape.of_correlated] at hcore
    obtain ⟨htop, hunlimited⟩ := paginated_unlimited hcore
    rw [Shape.of_correlated] at hunlimited
    exact ⟨htop, (Core.correlated_bind_result _ _).trans hunlimited⟩
  | plain =>
    rw [hstrategy, ← Shape.of_correlated] at hcore
    have hsingle : Core.singleDistinct
        { c with source := c.source.map fun s => s.correlated.1 } = false := hplain hstrategy
    obtain ⟨htop, hunlimited⟩ := plain_unlimited hsingle hcore
    rw [Shape.of_correlated] at hunlimited
    exact ⟨htop, (Core.correlated_bind_result _ _).trans hunlimited⟩

/-- **Without its limit** a level is compiled by the same strategy to the same query, but for the
limit. -/
theorem SelectBody.compile_unlimited [BEq σ] {options : Options} {subquery : σ → Trace Query}
    (hcount : s.strategy? options subquery ≠ some .count)
    (hplain : s.strategy? options subquery = some .plain →
      ∀ c ∈ s.cores.head?, c.singleDistinct = false)
    (h : (s.compile options subquery).result = .ok q) :
    (s.withLimit none).strategy? options subquery = s.strategy? options subquery ∧
      ((s.scope options subquery).expr? (if s.strategy? options subquery = some .paginated
        then s.boundedLimit? else s.limit)).result = .ok q.body.top ∧
      ((s.withLimit none).compile options subquery).result = .ok q.untopped := by
  obtain ⟨orders, c, cores, horders, hcores, h⟩ := compile_eq_ok.1 h
  have hstrategy : ∀ t : SelectBody σ, t.cores = s.cores → t.orders = s.orders →
      t.strategy? options subquery = some (Shape.of { t with orders := orders } c).strategy := by
    intro t htcores htorders
    have hscope : t.scope options subquery = s.scope options subquery := by
      rw [scope, scope, SelectBody.names, SelectBody.names, htcores, htorders]
    rw [strategy?, hscope, htcores, htorders, hcores, horders]
  rw [hstrategy s rfl rfl] at hcount hplain ⊢
  rw [hstrategy (s.withLimit none) rfl rfl]
  have hcount' : (Shape.of { s with orders := orders } c).strategy ≠ .count := fun hs =>
    hcount (congrArg some hs)
  have hplain' : (Shape.of { s with orders := orders } c).strategy = .plain →
      c.singleDistinct = false := fun hs => hplain (congrArg some hs) c (by rw [hcores]; rfl)
  obtain ⟨htop, hunlimited⟩ := Scope.core_unlimited hcount' hplain' h
  refine ⟨congrArg some (Shape.strategy_unlimited hcount'), ?_,
    compile_eq_ok.2 ⟨orders, c, cores, horders, hcores, hunlimited⟩⟩
  simp only [Option.some.injEq]
  exact htop

/-- Only an integer equals an integer. -/
theorem Expr.beq_int_iff [BEq σ] {e : Expr σ} {i : Int64} :
    (e == .int i) = true ↔ e = .int i := by
  cases e with
  | literal v =>
    cases v with
    | integer j =>
      show (Literal.integer j == Literal.integer i) = true ↔ _
      simp [Expr.int]
    | _ => simp [Expr.int]; rfl
  | _ => simp [Expr.int]; rfl

theorem Core.singleDistinct_map {τ : Type} (f : σ → τ) (c : Core σ) :
    (c.map f).singleDistinct = c.singleDistinct := by
  unfold singleDistinct
  rw [Core.map]
  rcases c.projections with _ | ⟨p, _ | ⟨p', ps⟩⟩
  · rfl
  · exact p.isMarked_map f
  · rfl

end

/-! ## Selects -/

namespace Select

variable {options : Options} {s : Select}

/-- The select without its limit. -/
def unlimited (s : Select) : Select := .of (s.body.withLimit none)

/-- The text of an expression that stands in a select. -/
def textOf (options : Options) (s : Select) (e : Expr Select) : Except CompileError String :=
  ((s.scope options).expr (e.map (compiled options))).result.map (·.querySql options.collation)

/-- **Without its limit** a select is compiled by the same strategy to the same query, but for the
limit. -/
theorem compile_unlimited {q : Query} (hcount : s.strategy? options ≠ some .count)
    (hplain : s.strategy? options = some .plain →
      ∀ c ∈ s.body.cores.head?, c.singleDistinct = false)
    (hq : (s.compile options).result = .ok q) :
    s.unlimited.strategy? options = s.strategy? options ∧
      ((s.scope options).expr? (if s.strategy? options = some .paginated
        then (s.level options).boundedLimit? else (s.level options).limit)).result =
          .ok q.body.top ∧
      (s.unlimited.compile options).result = .ok q.untopped := by
  have hplain' : (s.level options).strategy? options Compiled.query = some .plain →
      ∀ c ∈ (s.level options).cores.head?, c.singleDistinct = false := by
    intro hs c' hc'
    rw [level, SelectBody.map, List.head?_map, Option.mem_def, Option.map_eq_some_iff] at hc'
    obtain ⟨c, hc, rfl⟩ := hc'
    rw [Core.singleDistinct_map]
    exact hplain hs c hc
  rw [compile_eq] at hq ⊢
  exact SelectBody.compile_unlimited hcount hplain' hq

/-- A page leaves out the limit that stands for none. -/
theorem boundedLimit?_level (options : Options) {limit : Expr Select}
    (h : s.body.limit = some limit) :
    (limit = .int unboundedLimit → (s.level options).boundedLimit? = none) ∧
      (limit ≠ .int unboundedLimit →
        (s.level options).boundedLimit? = some (limit.map (compiled options))) := by
  have hlevel : (s.level options).limit = some (limit.map (compiled options)) := by
    rw [level, SelectBody.map, h]
    rfl
  rw [SelectBody.boundedLimit?, hlevel]
  constructor
  · rintro rfl
    rfl
  · intro hne
    have hbounded : (limit == .int unboundedLimit) = false :=
      Bool.eq_false_iff.2 fun heq => hne (Expr.beq_int_iff.1 heq)
    simp [Expr.beq_int_map, hbounded]

/-- **A limit only inserts a clause**: without it a select has the same strategy, and the same text
but for `TOP (n)` after the first keywords. Counts and plain selects of a single marked projection
are arranged by their limit, and excepted. A page writes no clause for the limit that stands for
none. -/
theorem sql_unlimited {limit : Expr Select} {text : String} (hlimit : s.body.limit = some limit)
    (htext : Statement.sql options (.select s) = .ok text)
    (hcount : s.strategy? options ≠ some .count)
    (hplain : s.strategy? options = some .plain →
      ∀ c ∈ s.body.cores.head?, c.singleDistinct = false) :
    s.unlimited.strategy? options = s.strategy? options ∧
      (s.strategy? options = some .paginated ∧ limit = .int unboundedLimit →
        Statement.sql options (.select s.unlimited) = .ok text) ∧
      (¬(s.strategy? options = some .paginated ∧ limit = .int unboundedLimit) →
        ∃ keywords ∈ ["SELECT ", "SELECT DISTINCT "], ∃ top rest,
          s.textOf options limit = .ok top ∧
          Statement.sql options (.select s.unlimited) = .ok (keywords ++ rest) ∧
          text = keywords ++ "TOP (" ++ top ++ ") " ++ rest) := by
  rw [sql_result] at htext
  obtain ⟨q, hq, rfl⟩ := Except.map_eq_ok_iff.1 htext
  obtain ⟨hstrategy, htop, hunlimited⟩ := compile_unlimited hcount hplain hq
  obtain ⟨hnone, hsome⟩ := boundedLimit?_level options hlimit
  rw [sql_eq hunlimited]
  refine ⟨hstrategy, ?_, fun hwritten => ?_⟩
  · rintro ⟨hpage, hunbounded⟩
    rw [if_pos hpage, hnone hunbounded, Scope.expr?_none] at htop
    rw [Query.untopped_of_none (Except.ok.inj htop).symm]
  · have hlevel : (if s.strategy? options = some .paginated then (s.level options).boundedLimit?
        else (s.level options).limit) = some (limit.map (compiled options)) := by
      split
      · rename_i hpage
        exact hsome fun hunbounded => hwritten ⟨hpage, hunbounded⟩
      · rw [level, SelectBody.map, hlimit]
        rfl
    rw [hlevel] at htop
    obtain ⟨top, hexpr, htop⟩ := Trace.bind_eq_ok.1 htop
    obtain ⟨keywords, hkeywords, rest, huntopped, htopped⟩ :=
      Query.sql_top options.collation (Except.ok.inj htop).symm
    exact ⟨keywords, hkeywords, top.querySql options.collation, rest,
      Except.map_eq_ok_iff.2 ⟨top, hexpr, rfl⟩, congrArg Except.ok huntopped, htopped⟩

/-- Distinct values on a page with a limit. -/
def limitedPage : Select :=
  .of
    { cores :=
        [{ projections := [.distinct (.named "a")]
           source := some (.table { name := "t" })
           groups := [.named "a"] }]
      limit := some (.int 2)
      offset := some (.int 1) }

theorem sql_unlimited_limitedPage :
    limitedPage.body.limit = some (.int 2) ∧ limitedPage.strategy? {} = some .paginated ∧
      limitedPage.unlimited.strategy? {} = some .paginated ∧
      ∃ text, Statement.sql {} (.select limitedPage) = .ok text ∧
        ∃ keywords ∈ ["SELECT ", "SELECT DISTINCT "], ∃ top rest,
          limitedPage.textOf {} (.int 2) = .ok top ∧
          Statement.sql {} (.select limitedPage.unlimited) = .ok (keywords ++ rest) ∧
          text = keywords ++ "TOP (" ++ top ++ ") " ++ rest := by
  have hlimit : limitedPage.body.limit = some (.int 2) := rfl
  have hstrategy : limitedPage.strategy? {} = some .paginated := rfl
  obtain ⟨text, htext⟩ : ∃ text, Statement.sql {} (.select limitedPage) = .ok text := ⟨_, rfl⟩
  obtain ⟨hsame, -, hwritten⟩ := sql_unlimited hlimit htext (by simp [hstrategy])
    (by simp [hstrategy])
  have hbounded : (Expr.int 2 : Expr Select) ≠ .int unboundedLimit := by
    simp [Expr.int, unboundedLimit]
  exact ⟨hlimit, hstrategy, hsame.trans hstrategy, text, htext, hwritten fun h => hbounded h.2⟩

end Select

end Transact
