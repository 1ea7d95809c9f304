import Transact.Proofs.Composition
import Transact.Proofs.Plan.Builds
import Transact.Proofs.Sql.Token

/-!
# A lock writes one hint

The hint of a lock stands after the first table of the source, and nowhere else. `Query.DrawsOn` is
a query whose rows come from a source in the end, through derived tables, with the hint on the
source left open.

* `Source.sql_hint`: the text of a source with a hint is the text without it, but for the hint after
  its first leaf, which is the leaf that the base table is taken from.
* `Scope.draws_plain`, `Scope.draws_paginated`, `Scope.draws_count`, `Scope.draws_distinctOrder`:
  one lemma for each strategy says that the lock decides about the open hint and nothing else;
  `Scope.draws_core` puts them together.
* `Query.DrawsOn.sql_eq`: the text of such a query has the source after a `FROM`, and is otherwise
  the same whatever the hint.
* `Select.sql_locked`: so a lock inserts its hint once.
-/

set_option autoImplicit false

namespace Transact

open Text

/-! ## The first leaf of a source -/

/-- What joins are made of in the end. -/
inductive Leaf where
  | table (t : TableRef)
  | raw (text : String)

namespace Leaf

/-- The leaf as a source of its own. -/
def source {σ : Type} : Leaf → Source σ
  | .table t => .table t
  | .raw text => .raw text

/-- The text of a leaf. -/
def sql : Leaf → String
  | .table t => t.sql
  | .raw text => trim text

theorem sql_source (collation : String) (l : Leaf) : l.source.sql collation none = l.sql := by
  cases l <;> rfl

end Leaf

namespace Source

variable {σ τ : Type}

/-- The leftmost leaf of a source. -/
def firstLeaf : Source σ → Leaf
  | .table t => .table t
  | .raw text => .raw text
  | .join _ left _ _ => firstLeaf left

/-- The base table is that of the first leaf. -/
theorem baseTable_firstLeaf : ∀ s : Source σ,
    (s.firstLeaf.source : Source σ).baseTable = s.baseTable
  | .table _ => rfl
  | .raw _ => rfl
  | .join _ left _ _ => baseTable_firstLeaf left

theorem firstLeaf_map (f : σ → τ) : ∀ s : Source σ, (s.map f).firstLeaf = s.firstLeaf
  | .table _ => rfl
  | .raw _ => rfl
  | .join _ left _ _ => firstLeaf_map f left

theorem firstLeaf_correlated (s : Source σ) : s.correlated.1.firstLeaf = s.firstLeaf := by
  unfold correlated
  split
  · split <;> rfl
  · rfl

theorem firstLeaf_mapM {f : σ → Trace τ} : ∀ {s : Source σ} {s' : Source τ},
    (s.mapM f).result = .ok s' → s'.firstLeaf = s.firstLeaf
  | .table _, _, h => by
    obtain rfl := Except.ok.inj h
    rfl
  | .raw _, _, h => by
    obtain rfl := Except.ok.inj h
    rfl
  | .join kind left right condition, s', h => by
    obtain ⟨left', hleft, h⟩ := Trace.bind_eq_ok.1 h
    obtain ⟨right', -, h⟩ := Trace.bind_eq_ok.1 h
    -- whatever becomes of the condition, the left side stays on the left
    have hjoin : ∃ kind' right'' condition', s' = .join kind' left' right'' condition' := by
      split at h
      · exact ⟨_, _, _, (Except.ok.inj h).symm⟩
      · exact ⟨_, _, _, (Except.ok.inj h).symm⟩
      · exact ⟨_, _, _, (Except.ok.inj h).symm⟩
      · obtain ⟨condition', -, h⟩ := Trace.bind_eq_ok.1 h
        exact ⟨_, _, _, (Except.ok.inj h).symm⟩
    have hfirst : left'.firstLeaf = left.firstLeaf := firstLeaf_mapM hleft
    obtain ⟨kind', right'', condition', rfl⟩ := hjoin
    exact hfirst

/-- What a join writes after its left side. -/
def joined (collation : String) (kind : JoinKind) (right : Source String)
    (condition : Option (Expr String)) : String :=
  let inner := right.sql collation none
  let text := if right.isJoin then "(" ++ inner ++ ")" else inner
  match kind, condition with
  | .fragment, _ => " " ++ text
  | .cross, _ => " " ++ kind.keyword ++ " " ++ text
  | _, none => " " ++ kind.keyword ++ " " ++ text
  | _, some condition => " " ++ kind.keyword ++ " " ++ text ++ " ON " ++ condition.sql collation

theorem sql_join (collation : String) (kind : JoinKind) (left right : Source String)
    (condition : Option (Expr String)) (hint : Option String) :
    (Source.join kind left right condition).sql collation hint =
      left.sql collation hint ++ joined collation kind right condition := by
  cases kind <;> cases condition <;> simp only [sql, joined, String.append_assoc]

/-- **A hint** stands right after the first leaf of a source. -/
theorem sql_hint (collation hint : String) : ∀ s : Source String, ∃ rest,
    s.sql collation none = s.firstLeaf.sql ++ rest ∧
      s.sql collation (some hint) = s.firstLeaf.sql ++ " " ++ hint ++ rest
  | .table _ => ⟨"", by simp [sql, hinted, firstLeaf, Leaf.sql]⟩
  | .raw _ => ⟨"", by simp [sql, hinted, firstLeaf, Leaf.sql]⟩
  | .join kind left right condition => by
    obtain ⟨rest, hnone, hsome⟩ := sql_hint collation hint left
    refine ⟨rest ++ joined collation kind right condition, ?_, ?_⟩
    · rw [sql_join, hnone, firstLeaf, String.append_assoc]
    · rw [sql_join, hsome, firstLeaf, String.append_assoc]

end Source

/-! ## Queries with an open hint -/

namespace Query

/-- The query draws on the source, directly or through derived tables; the hint on the source is
left open. -/
inductive DrawsOn (source : Source Query) : (Option String → Query) → Prop
  | source (body : QueryBody Query) :
    DrawsOn source fun hint => .of { body with rows := some (.source source hint) }
  | derived (body : QueryBody Query) (name : String) {query : Option String → Query} :
    DrawsOn source query →
      DrawsOn source fun hint => .of { body with rows := some (.derived (query hint) name) }

end Query

theorem exists_join_tail (sep : String) (texts : List String) :
    ∃ after, ∀ text, join sep (text :: texts) = text ++ after := by
  cases texts with
  | nil => exact ⟨"", fun text => (String.append_empty).symm⟩
  | cons t ts => exact ⟨sep ++ join sep (t :: ts), fun text => String.append_assoc⟩

/-- The rows of a level stand after its `FROM`, and the rest of its text does not depend on them. -/
theorem QueryBody.sql_rows (collation : String) (b : QueryBody String) : ∃ before after,
    ∀ rows, QueryBody.sql collation { b with rows := some rows } =
      before ++ " FROM " ++ rows.sql collation ++ after := by
  let list := join ", " (b.columns.map fun block => join ", " (block.map (Column.sql collation)))
  let keywords := ["SELECT"] ++ (if b.distinct then ["DISTINCT"] else []) ++
    topClause collation b.top ++ [list]
  let clauses := clause "WHERE" " AND " (Expr.sqlList collation b.filters) ++
    clause "GROUP BY" ", " (Expr.sqlList collation b.groups) ++
    (b.having.toList.map fun e => "HAVING " ++ e.sql collation) ++
    clause "ORDER BY" ", " (b.orders.map (Key.sql collation))
  obtain ⟨after, hafter⟩ := exists_join_tail " " clauses
  refine ⟨join " " keywords, after, fun rows => ?_⟩
  have hpieces : QueryBody.sql collation { b with rows := some rows } =
      join " " (keywords ++ ("FROM " ++ rows.sql collation) :: clauses) := by
    simp [QueryBody.sql, keywords, clauses, list]
  rw [hpieces, Sql.join_append _ _ _ (by simp [keywords]), hafter]
  simp [← String.toList_inj]

/-- **The text of a query** that draws on a source has the source after a `FROM`, and is otherwise
the same whatever the hint. -/
theorem Query.DrawsOn.sql_eq (collation : String) {source : Source Query}
    {query : Option String → Query} (h : DrawsOn source query) : ∃ before after, ∀ hint,
      (query hint).sql collation =
        before ++ " FROM " ++ (source.map (Query.sql collation)).sql collation hint ++ after := by
  induction h with
  | source body =>
    obtain ⟨before, after, hsql⟩ := QueryBody.sql_rows collation (body.map (Query.sql collation))
    refine ⟨before, after, fun hint => ?_⟩
    rw [Query.sql_eq_body]
    exact hsql (.source _ hint)
  | derived body name _ ih =>
    obtain ⟨inside, outside, hquery⟩ := ih
    obtain ⟨before, after, hsql⟩ := QueryBody.sql_rows collation (body.map (Query.sql collation))
    refine ⟨before ++ " FROM (" ++ inside, outside ++ ") AS " ++ Sql.name name ++ after,
      fun hint => ?_⟩
    rw [Query.sql_eq_body]
    refine (hsql (.derived _ name)).trans ?_
    rw [Rows.sql, hquery]
    simp [← String.toList_inj]

/-! ## Strategies -/

section

variable {σ : Type} {sc : Scope σ} {s : SelectBody σ} {c : Core σ} {source : Source σ} {q : Query}

namespace Scope

/-- Whatever the lock, the query is that of a source, and the lock decides about its hint only. -/
def Draws (sc : Scope σ) (source : Source σ) (compile : Option Lock → Trace Query) : Prop :=
  ∃ drawn query, (source.mapM sc.subquery).result = .ok drawn ∧ Query.DrawsOn drawn query ∧
    ∀ lock, (compile lock).result = .ok (query (lock.map sc.hint))

/-- A frame has the hint on its source, and nothing else of the lock. -/
theorem frame_locked {lock : Option Lock} {groups : List (Expr σ)} {frame : QueryBody Query}
    (hsource : c.source = some source)
    (h : (sc.frame (s.withLock lock) c groups).result = .ok frame) :
    ∃ drawn, (source.mapM sc.subquery).result = .ok drawn ∧ ∀ lock',
      (sc.frame (s.withLock lock') c groups).result =
        .ok { frame with rows := some (.source drawn (lock'.map sc.hint)) } := by
  obtain ⟨rows, filters, groups', having, hrows, hfilters, hgroups, hhaving, rfl⟩ :=
    frame_eq_ok.1 h
  rw [hsource] at hrows
  obtain ⟨drawn, hdrawn, -⟩ := Trace.bind_eq_ok.1 hrows
  refine ⟨drawn, hdrawn, fun lock' => frame_eq_ok.2 ⟨_, filters, groups', having, ?_, hfilters,
    hgroups, hhaving, rfl⟩⟩
  rw [hsource]
  exact Trace.bind_eq_ok.2 ⟨drawn, hdrawn, rfl⟩

theorem draws_plain (hsource : c.source = some source) {sh : Shape} {lock : Option Lock}
    (h : (sc.plain sh (s.withLock lock) c).result = .ok q) :
    sc.Draws source fun lock => sc.plain sh (s.withLock lock) c := by
  simp only [plain_result, Trace.bind_eq_ok] at h
  obtain ⟨top, htop, columns, hcolumns, frame, hframe, orders, horders, h⟩ := h
  obtain ⟨drawn, hdrawn, hframe⟩ := frame_locked hsource hframe
  refine ⟨drawn, _, hdrawn, .source q.body, fun lock => ?_⟩
  obtain rfl := Except.ok.inj h
  simp only [plain_result, Trace.bind_eq_ok]
  exact ⟨top, htop, columns, hcolumns, _, hframe lock, orders, horders, rfl⟩

theorem draws_count (hsource : c.source = some source) {lock : Option Lock}
    (h : (sc.count (s.withLock lock) c).result = .ok q) :
    sc.Draws source fun lock => sc.count (s.withLock lock) c := by
  simp only [count, Trace.bind_eq_ok] at h
  obtain ⟨keys, hkeys, top, htop, window, hwindow, frame, hframe, orders, horders, offset, hoffset,
    h⟩ := h
  obtain ⟨drawn, hdrawn, hframe⟩ := frame_locked hsource hframe
  let numbered : QueryBody Query :=
    { frame with
      top := top
      columns := [[.ranked window sc.names.rowNumber, .expr (.alias (.int 1) sc.names.count)]]
      orders := orders }
  refine ⟨drawn, _, hdrawn, .derived q.body sc.names.numbered (.source numbered), fun lock => ?_⟩
  obtain rfl := Except.ok.inj h
  simp only [count, Trace.bind_eq_ok]
  exact ⟨keys, hkeys, top, htop, window, hwindow, _, hframe lock, orders, horders, offset, hoffset,
    rfl⟩

theorem draws_paginated [BEq σ] (hsource : c.source = some source) {sh : Shape}
    {lock : Option Lock} (h : (sc.paginated sh (s.withLock lock) c).result = .ok q) :
    sc.Draws source fun lock => sc.paginated sh (s.withLock lock) c := by
  unfold paginated at h
  -- how the rows are ranked does not depend on the lock
  by_cases hdistinct : (c.distinct || sh.singleDistinct) = true
  all_goals
    simp only [hdistinct, Bool.false_eq_true, if_true, if_false, Trace.bind_eq_ok] at h
    obtain ⟨keys, hkeys, top, htop, outer, houter, window, hwindow, columns, hcolumns, frame,
      hframe, offset, hoffset, h⟩ := h
    obtain ⟨drawn, hdrawn, hframe⟩ := frame_locked hsource hframe
    let numbered : QueryBody Query :=
      { frame with
        distinct := c.distinct
        columns := [[.ranked window sc.names.rowNumber], columns] }
    refine ⟨drawn, _, hdrawn, .derived q.body sc.names.numbered (.source numbered), fun lock => ?_⟩
    obtain rfl := Except.ok.inj h
    unfold paginated
    simp only [hdistinct, Bool.false_eq_true, if_true, if_false, Trace.bind_eq_ok]
    exact ⟨keys, hkeys, top, htop, outer, houter, window, hwindow, columns, hcolumns, _,
      hframe lock, offset, hoffset, rfl⟩

theorem draws_distinctOrder (hsource : c.source = some source) {lock : Option Lock}
    (h : (sc.distinctOrder (s.withLock lock) c).result = .ok q) :
    sc.Draws source fun lock => sc.distinctOrder (s.withLock lock) c := by
  simp only [distinctOrder, Trace.bind_eq_ok] at h
  obtain ⟨columns, hcolumns, rank, hrank, duplicate, hduplicate, frame, hframe, outer, houter, top,
    htop, offset, hoffset, h⟩ := h
  obtain ⟨drawn, hdrawn, hframe⟩ := frame_locked hsource hframe
  have hranked : Query.DrawsOn drawn _ :=
    .source (rankedRows sc.names frame columns rank duplicate).body
  cases offset with
  | none =>
    refine ⟨drawn, _, hdrawn, .derived q.body sc.names.ranked hranked, fun lock => ?_⟩
    obtain rfl := Except.ok.inj h
    simp only [distinctOrder, Trace.bind_eq_ok]
    exact ⟨columns, hcolumns, rank, hrank, duplicate, hduplicate, _, hframe lock, outer, houter,
      top, htop, none, hoffset, rfl⟩
  | some offset =>
    let numbered : QueryBody Query :=
      { columns := [outer.map .expr ++
          [.ranked ⟨.rowNumber, [], [⟨.named sc.names.order, none⟩]⟩ sc.names.offset]]
        filters := [.equals (.named sc.names.duplicate) (.int 1)] }
    refine ⟨drawn, _, hdrawn, .derived q.body sc.names.offsetRows
      (.derived numbered sc.names.ranked hranked), fun lock => ?_⟩
    obtain rfl := Except.ok.inj h
    simp only [distinctOrder, Trace.bind_eq_ok]
    exact ⟨columns, hcolumns, rank, hrank, duplicate, hduplicate, _, hframe lock, outer, houter,
      top, htop, some offset, hoffset, rfl⟩

/-- **A core** is compiled alike under every lock, but for the hint on its source, which joined text
may have been correlated in. -/
theorem draws_core [BEq σ] (hsource : c.source = some source) {lock : Option Lock}
    (h : (sc.core (s.withLock lock) c).result = .ok q) :
    ∃ tree ∈ [source, source.correlated.1],
      sc.Draws tree fun lock => sc.core (s.withLock lock) c := by
  have hcore := core_eq_ok h
  have hshape : ∀ lock, Shape.of (s.withLock lock) c = Shape.of s c := fun _ => rfl
  have hcorrelated : (c.source.map fun tree => tree.correlated.1) = some source.correlated.1 := by
    rw [hsource]
    rfl
  rw [hshape] at hcore
  simp only [Draws, core_result, hshape]
  cases hstrategy : (Shape.of s c).strategy with
  | count =>
    rw [hstrategy] at hcore
    exact ⟨source, List.mem_cons_self, draws_count hsource hcore⟩
  | distinctOrder =>
    rw [hstrategy] at hcore
    exact ⟨source, List.mem_cons_self, draws_distinctOrder hsource hcore⟩
  | paginated =>
    rw [hstrategy] at hcore
    refine ⟨source.correlated.1, by simp, ?_⟩
    simp only [Core.correlated_bind_result]
    exact draws_paginated hcorrelated hcore
  | plain =>
    rw [hstrategy] at hcore
    refine ⟨source.correlated.1, by simp, ?_⟩
    simp only [Core.correlated_bind_result]
    exact draws_plain hcorrelated hcore

end Scope

/-- The lock of a level is seen by its core only. -/
theorem SelectBody.draws_compile [BEq σ] {options : Options} {subquery : σ → Trace Query}
    (hc : s.cores.head? = some c) (hsource : c.source = some source) {lock : Option Lock}
    (h : ((s.withLock lock).compile options subquery).result = .ok q) :
    ∃ tree ∈ [source, source.correlated.1], (s.scope options subquery).Draws tree fun lock =>
      (s.withLock lock).compile options subquery := by
  obtain ⟨orders, c', cores, horders, hcores, h⟩ := compile_eq_ok.1 h
  have hcores' : s.cores = c' :: cores := hcores
  rw [hcores'] at hc
  obtain rfl := Option.some.inj hc
  obtain ⟨tree, htree, drawn, query, hdrawn, hquery, hcore⟩ :=
    Scope.draws_core (s := { s with orders := orders }) hsource h
  refine ⟨tree, htree, drawn, query, hdrawn, hquery, fun lock' => ?_⟩
  exact compile_eq_ok.2 ⟨orders, _, cores, horders, hcores', hcore lock'⟩

end

/-! ## Selects -/

/-- The hint that a lock stands for. -/
def Options.hint (options : Options) : Lock → String
  | .default => options.lockHint
  | .hint text => text

theorem Scope.hint_eq {σ : Type} (sc : Scope σ) (lock : Lock) :
    sc.hint lock = sc.options.hint lock := by
  cases lock <;> rfl

/-- The text of a source of a query. -/
def Source.querySql (collation : String) (s : Source Query) (hint : Option String) : String :=
  (s.map (Query.sql collation)).sql collation hint

namespace Select

/-- The select with this lock, or without one. -/
def locked (lock : Option Lock) (s : Select) : Select := .of (s.body.withLock lock)

/-- **A select** is compiled alike under every lock, but for the hint on its source. -/
theorem compile_locked {options : Options} {s : Select} {c : Core Select} {source : Source Select}
    {lock : Option Lock} {q : Query} (hc : s.body.cores.head? = some c)
    (hsource : c.source = some source) (hq : ((s.locked lock).compile options).result = .ok q) :
    ∃ tree ∈ [source, source.correlated.1], ∃ drawn query,
      (tree.mapM (compile options)).result = .ok drawn ∧ Query.DrawsOn drawn query ∧
      ∀ lock', ((s.locked lock').compile options).result =
        .ok (query (lock'.map options.hint)) := by
  have hlevel : ∀ lock', (s.locked lock').level options = (s.level options).withLock lock' :=
    fun _ => rfl
  have hsource' : (c.map (compiled options)).source = some (source.map (compiled options)) := by
    rw [Core.map, hsource]
    rfl
  rw [compile_eq, hlevel] at hq
  obtain ⟨tree', htree', drawn, query, hdrawn, hquery, hcompile⟩ :=
    SelectBody.draws_compile (level_cores_head? options hc) hsource' hq
  -- correlating joined text and compiling subqueries can be exchanged
  have htree : ∃ tree ∈ [source, source.correlated.1], tree' = tree.map (compiled options) := by
    rw [Source.correlated_map] at htree'
    simpa using htree'
  obtain ⟨tree, htree, rfl⟩ := htree
  rw [Source.mapM_map] at hdrawn
  refine ⟨tree, htree, drawn, query, hdrawn, hquery, fun lock' => ?_⟩
  rw [compile_eq, hlevel, hcompile lock']
  cases lock' with
  | none => rfl
  | some lock' =>
    rw [Option.map_some, Option.map_some, Scope.hint_eq]
    rfl

/-- **A lock inserts its hint once.** The hint of a source stands after its leftmost leaf, the one
that its base table is taken from. A select with a lock differs from the select without it by the
hint on the source of its first core, whatever the strategy. -/
theorem sql_locked (options : Options) (lock : Lock) :
    (∀ (tree : Source Select) (drawn : Source Query),
      (tree.mapM (compile options)).result = .ok drawn →
      (tree.firstLeaf.source : Source Select).baseTable = tree.baseTable ∧
      tree.firstLeaf.source.sql options.collation none = tree.firstLeaf.sql ∧
      ∃ rest,
        drawn.querySql options.collation none = tree.firstLeaf.sql ++ rest ∧
        drawn.querySql options.collation (some (options.hint lock)) =
          tree.firstLeaf.sql ++ " " ++ options.hint lock ++ rest) ∧
    ∀ (s : Select) (c : Core Select) (source : Source Select) (text : String),
      s.body.cores.head? = some c → c.source = some source →
      Statement.sql options (.select (s.locked none)) = .ok text →
      ∃ tree ∈ [source, source.correlated.1], ∃ drawn query before rest after,
        (tree.mapM (compile options)).result = .ok drawn ∧ Query.DrawsOn drawn query ∧
        ((s.locked none).compile options).result = .ok (query none) ∧
        ((s.locked (some lock)).compile options).result = .ok (query (some (options.hint lock))) ∧
        drawn.querySql options.collation none = source.firstLeaf.sql ++ rest ∧
        text = before ++ " FROM " ++ source.firstLeaf.sql ++ rest ++ after ∧
        Statement.sql options (.select (s.locked (some lock))) =
          .ok (before ++ " FROM " ++ source.firstLeaf.sql ++ " " ++ options.hint lock ++ rest ++
            after) := by
  have hsplit : ∀ (tree : Source Select) (drawn : Source Query),
      (tree.mapM (compile options)).result = .ok drawn → ∃ rest,
        drawn.querySql options.collation none = tree.firstLeaf.sql ++ rest ∧
        drawn.querySql options.collation (some (options.hint lock)) =
          tree.firstLeaf.sql ++ " " ++ options.hint lock ++ rest := by
    intro tree drawn hdrawn
    rw [← Source.firstLeaf_mapM hdrawn, ← Source.firstLeaf_map (Query.sql options.collation) drawn]
    exact Source.sql_hint options.collation (options.hint lock) (drawn.map _)
  refine ⟨fun tree drawn hdrawn => ⟨Source.baseTable_firstLeaf tree, Leaf.sql_source _ _,
    hsplit tree drawn hdrawn⟩, ?_⟩
  intro s c source text hc hsource htext
  rw [sql_result, Except.map_eq_ok_iff] at htext
  obtain ⟨q, hq, rfl⟩ := htext
  obtain ⟨tree, htree, drawn, query, hdrawn, hquery, hcompile⟩ := compile_locked hc hsource hq
  have hleaf : tree.firstLeaf = source.firstLeaf := by
    obtain rfl | rfl : tree = source ∨ tree = source.correlated.1 := by simpa using htree
    · rfl
    · exact Source.firstLeaf_correlated source
  obtain ⟨before, after, htexts⟩ := hquery.sql_eq options.collation
  obtain ⟨rest, hnone, hsome⟩ := hsplit tree drawn hdrawn
  rw [hleaf] at hnone hsome
  obtain rfl := Except.ok.inj ((hcompile none).symm.trans hq)
  refine ⟨tree, htree, drawn, query, before, rest, after, hdrawn, hquery, hcompile none,
    hcompile (some lock), hnone, ?_, ?_⟩
  · rw [Option.map_none, htexts none]
    change before ++ " FROM " ++ drawn.querySql options.collation none ++ after = _
    rw [hnone, ← String.append_assoc]
  · rw [sql_result, hcompile (some lock)]
    change Except.ok ((query (some (options.hint lock))).sql options.collation) = _
    rw [htexts]
    change Except.ok (before ++ " FROM " ++
      drawn.querySql options.collation (some (options.hint lock)) ++ after) = _
    rw [hsome]
    simp only [String.append_assoc]

/-- People by their city, from the second one, over a join of text that has to be correlated. -/
def secondPerson : Select :=
  .of
    { cores :=
        [{ projections := [.named "city"]
           source := some
            (.join .fragment
              (.join .leftOuter
                (.table { name := "people", schema := some "dbo", aliasName := some "p" })
                (.table { name := "pets" }) (some (.named "owned")))
              (.raw "INNER JOIN [pets] ON [pets].[id] = 1") none) }]
      orders := [⟨.named "city", .asc⟩]
      offset := some (.int 1) }

theorem sql_locked_secondPerson :
    ∃ text before rest after,
      Statement.sql {} (.select secondPerson) = .ok text ∧
      text = before ++ " FROM " ++ "[dbo].[people] AS [p]" ++ rest ++ after ∧
      Statement.sql {} (.select (secondPerson.locked (some (.hint "WITH(NOLOCK)")))) =
        .ok (before ++ " FROM " ++ "[dbo].[people] AS [p]" ++ " " ++ "WITH(NOLOCK)" ++ rest ++
          after) := by
  obtain ⟨text, htext⟩ : ∃ text, Statement.sql {} (.select (secondPerson.locked none)) = .ok text :=
    ⟨_, rfl⟩
  obtain ⟨-, -, -, -, before, rest, after, -, -, -, -, -, hnone, hsome⟩ :=
    (sql_locked {} (.hint "WITH(NOLOCK)")).2 secondPerson _ _ text rfl rfl htext
  exact ⟨text, before, rest, after, htext, hnone, hsome⟩

end Select

end Transact
