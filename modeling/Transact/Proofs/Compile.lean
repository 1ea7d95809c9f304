import Transact.Compile
import Transact.Proofs.Plan.Scope
import Transact.Proofs.Select

/-!
# Levels of a select

A select is compiled level by level. `Select.level` is its outermost level over subqueries that are
compiled already, and `Select.strategy?` is how that level is compiled.

* `Select.compile_eq`: a select is compiled as its outermost level.
* `SelectBody.compile_eq_ok`: a level that compiles has a core, and its order has no repetitions.
* `Scope.core_eq_ok`: what each strategy compiles.
-/

set_option autoImplicit false

namespace Transact

/-! ## One level -/

section

variable {σ : Type}

/-- The strategy by which a level is compiled, unless it has no core or its order does not
compile. -/
def SelectBody.strategy? [BEq σ] (options : Options) (subquery : σ → Trace Query)
    (s : SelectBody σ) : Option Strategy :=
  match s.cores, ((s.scope options subquery).distinctKeys s.orders).result with
  | c :: _, .ok orders => some (Shape.of { s with orders := orders } c).strategy
  | _, _ => none

/-- Apart from what is said, the order of a level is freed of repetitions and its first core is
compiled. -/
theorem SelectBody.compile_result [BEq σ] (options : Options) (subquery : σ → Trace Query)
    (s : SelectBody σ) :
    (s.compile options subquery).result =
      ((s.scope options subquery).distinctKeys s.orders >>= fun orders =>
        match s.cores with
        | [] => Trace.fail .noCore
        | c :: _ => (s.scope options subquery).core { s with orders := orders } c).result := rfl

/-- **A level that compiles** has a core, and is compiled with its order freed of repetitions. -/
theorem SelectBody.compile_eq_ok [BEq σ] {options : Options} {subquery : σ → Trace Query}
    {s : SelectBody σ} {q : Query} :
    (s.compile options subquery).result = .ok q ↔
      ∃ orders c cores, ((s.scope options subquery).distinctKeys s.orders).result = .ok orders ∧
        s.cores = c :: cores ∧
        ((s.scope options subquery).core { s with orders := orders } c).result = .ok q := by
  rw [SelectBody.compile_result, Trace.bind_eq_ok]
  constructor
  · rintro ⟨orders, horders, h⟩
    cases hc : s.cores with
    | nil =>
      rw [hc] at h
      cases h
    | cons c cores =>
      rw [hc] at h
      exact ⟨orders, c, cores, horders, rfl, h⟩
  · rintro ⟨orders, c, cores, horders, hc, h⟩
    refine ⟨orders, horders, ?_⟩
    rw [hc]
    exact h

/-- The strategy that a level has is that of its first core under its order without
repetitions. -/
theorem SelectBody.strategy_of_eq [BEq σ] {options : Options} {subquery : σ → Trace Query}
    {s : SelectBody σ} {strategy : Strategy} {orders : List (SortKey σ)} {c : Core σ}
    {cores : List (Core σ)} (h : s.strategy? options subquery = some strategy)
    (horders : ((s.scope options subquery).distinctKeys s.orders).result = .ok orders)
    (hc : s.cores = c :: cores) : (Shape.of { s with orders := orders } c).strategy = strategy := by
  rw [strategy?, hc, horders] at h
  exact Option.some.inj h

/-- The core of a paginated select is the original one, joined texts apart. -/
theorem Core.correlated_eq_ok {c c' : Core σ} :
    c.correlated.result = .ok c' ↔
      c' = { c with source := c.source.map fun s => s.correlated.1 } := by
  obtain ⟨projections, source, wheres, groups, having, distinct⟩ := c
  cases source with
  | none => simp [Core.correlated, eq_comm]
  | some source =>
    simp only [Core.correlated, Trace.sayAll_bind_result, Trace.pure_result, Except.ok.injEq,
      Option.map_some]
    exact eq_comm

theorem Core.correlated_bind_result {α : Type} (c : Core σ) (k : Core σ → Trace α) :
    (c.correlated >>= k).result =
      (k { c with source := c.source.map fun s => s.correlated.1 }).result := by
  rw [Trace.bind_ok (Core.correlated_eq_ok.2 rfl)]

theorem Source.isJoin_correlated (s : Source σ) : s.correlated.1.isJoin = s.isJoin := by
  unfold Source.correlated
  split
  · split <;> rfl
  · rfl

theorem Source.baseTable_correlated (s : Source σ) : s.correlated.1.baseTable = s.baseTable := by
  unfold Source.correlated
  split
  · split <;> rfl
  · rfl

theorem Core.baseTable?_correlated (c : Core σ) :
    ({ c with source := c.source.map fun s => s.correlated.1 } : Core σ).baseTable? =
      c.baseTable? := by
  simp [Core.baseTable?, Function.comp_def, Source.baseTable_correlated]

/-- Joined texts do not show in the shape of a select. -/
theorem Shape.of_correlated [BEq σ] (s : SelectBody σ) (c : Core σ) :
    Shape.of s { c with source := c.source.map fun s => s.correlated.1 } = Shape.of s c := by
  have hjoin : (c.source.map fun s => s.correlated.1).any Source.isJoin =
      c.source.any Source.isJoin := by
    cases c.source with
    | none => rfl
    | some source => exact source.isJoin_correlated
  have hkey : Core.keyOnly { c with source := c.source.map fun s => s.correlated.1 } =
      c.keyOnly := by
    rw [Core.keyOnly, Core.keyOnly, Core.baseTable?_correlated]
  simp only [Shape.of, hjoin, hkey]
  rfl

/-- Apart from what is said, a core is compiled by its strategy. -/
theorem Scope.core_result [BEq σ] (sc : Scope σ) (s : SelectBody σ) (c : Core σ) :
    (sc.core s c).result =
      (match (Shape.of s c).strategy with
      | .count => sc.count s c
      | .distinctOrder => sc.distinctOrder s c
      | .paginated => c.correlated >>= sc.paginated (Shape.of s c) s
      | .plain => c.correlated >>= sc.plain (Shape.of s c) s).result := by
  rw [Scope.core]
  cases (Shape.of s c).foreignOrder <;> rfl

/-- What a strategy compiles. -/
theorem Scope.core_eq_ok [BEq σ] {sc : Scope σ} {s : SelectBody σ} {c : Core σ} {q : Query}
    (h : (sc.core s c).result = .ok q) :
    match (Shape.of s c).strategy with
    | .count => (sc.count s c).result = .ok q
    | .distinctOrder => (sc.distinctOrder s c).result = .ok q
    | .paginated =>
      (sc.paginated (Shape.of s c) s
        { c with source := c.source.map fun s => s.correlated.1 }).result = .ok q
    | .plain =>
      (sc.plain (Shape.of s c) s
        { c with source := c.source.map fun s => s.correlated.1 }).result = .ok q := by
  rw [Scope.core_result] at h
  cases hs : (Shape.of s c).strategy with
  | count =>
    rw [hs] at h
    exact h
  | distinctOrder =>
    rw [hs] at h
    exact h
  | paginated =>
    rw [hs] at h
    obtain ⟨c', hc', h⟩ := Trace.bind_eq_ok.1 h
    rw [Core.correlated_eq_ok.1 hc'] at h
    exact h
  | plain =>
    rw [hs] at h
    obtain ⟨c', hc', h⟩ := Trace.bind_eq_ok.1 h
    rw [Core.correlated_eq_ok.1 hc'] at h
    exact h

end

/-! ## The outermost level -/

namespace Select

/-- A select together with its query. -/
def compiled (options : Options) (s : Select) : Compiled := s.fold (Compiled.level options)

/-- The outermost level of a select, over compiled subqueries. -/
def level (options : Options) (s : Select) : SelectBody Compiled := s.body.map (compiled options)

/-- The scope in which the outermost level of a select is compiled. -/
def scope (options : Options) (s : Select) : Scope Compiled :=
  (s.level options).scope options Compiled.query

theorem names_scope (options : Options) (s : Select) :
    (s.scope options).names = .avoiding (s.level options).names := rfl

/-- The strategy by which a select is compiled. -/
def strategy? (options : Options) (s : Select) : Option Strategy :=
  (s.level options).strategy? options Compiled.query

/-- **A select is compiled** as its outermost level. -/
theorem compile_eq (options : Options) (s : Select) :
    s.compile options = (s.level options).compile options Compiled.query := by
  obtain ⟨body⟩ := s
  rw [compile, fold_of]
  rfl

/-- The text of a select is that of its query. -/
theorem sql_result (options : Options) (s : Select) :
    Statement.sql options (.select s) =
      (s.compile options).result.map (·.sql options.collation) := by
  rw [Statement.sql, Statement.trace, Statement.compile]
  cases h : (s.compile options).result with
  | ok q =>
    rw [Trace.bind_ok h]
    rfl
  | error e =>
    rw [Trace.bind_error h]
    rfl

theorem sql_eq {options : Options} {s : Select} {q : Query}
    (h : (s.compile options).result = .ok q) :
    Statement.sql options (.select s) = .ok (q.sql options.collation) := by
  rw [sql_result, h]
  rfl

end Select

/-- A core as it is compiled: over compiled subqueries, and with its joined text correlated. -/
def Core.prepared (options : Options) (c : Core Select) : Core Compiled :=
  { c.map (Select.compiled options) with
    source := (c.source.map (·.map (Select.compiled options))).map fun s => s.correlated.1 }

/-- The mark of a projection stands outside of subqueries. -/
theorem Expr.isMarked_map {σ τ : Type} (f : σ → τ) : ∀ e : Expr σ, (e.map f).isMarked = e.isMarked
  | .alias e _ => isMarked_map f e
  | .column _ | .wildcard _ | .literal _ | .typed _ _ | .aggregate _ _ _ | .call _ _
  | .distinct _ | .binary _ _ _ | .not _ | .isNull _ _ | .inList _ _ _ | .inSubquery _ _ _
  | .grouping _ | .caseSensitive _ | .raw _ => rfl

theorem Source.baseTable_map {σ τ : Type} (f : σ → τ) : ∀ s : Source σ,
    (s.map f).baseTable = s.baseTable
  | .table _ => rfl
  | .join _ left _ _ => baseTable_map f left
  | .raw _ => rfl

theorem Core.baseTable?_prepared (options : Options) (c : Core Select) :
    (c.prepared options).baseTable? = c.baseTable? := by
  rw [prepared, Core.baseTable?, Core.baseTable?]
  simp [Function.comp_def, Source.baseTable_correlated, Source.baseTable_map]

/-! ## Strategies of the outermost level -/

namespace Select

variable {options : Options} {s : Select} {c : Core Select} {q : Query}

theorem level_cores_head? (options : Options) (hc : s.body.cores.head? = some c) :
    (s.level options).cores.head? = some (c.map (compiled options)) := by
  rw [level, SelectBody.map, List.head?_map, hc]
  rfl

/-- The outermost level with its order freed of repetitions, and its first core. -/
theorem compile_eq_ok (hc : s.body.cores.head? = some c) (hq : (s.compile options).result = .ok q) :
    ∃ orders, ((s.scope options).distinctKeys (s.level options).orders).result = .ok orders ∧
      (∀ {strategy}, s.strategy? options = some strategy →
        (Shape.of { s.level options with orders := orders }
          (c.map (compiled options))).strategy = strategy) ∧
      ((s.scope options).core { s.level options with orders := orders }
        (c.map (compiled options))).result = .ok q := by
  rw [compile_eq] at hq
  obtain ⟨orders, c', cores, horders, hcores, hq⟩ := SelectBody.compile_eq_ok.1 hq
  have hc' := level_cores_head? options hc
  rw [hcores] at hc'
  obtain rfl := Option.some.inj hc'
  exact ⟨orders, horders, fun h => SelectBody.strategy_of_eq h horders hcores, hq⟩

/-- What a paginated select is compiled to. -/
theorem paginated_eq_ok (hc : s.body.cores.head? = some c)
    (hq : (s.compile options).result = .ok q) (h : s.strategy? options = some .paginated) :
    ∃ orders, ((s.scope options).distinctKeys (s.level options).orders).result = .ok orders ∧
      ((s.scope options).paginated
        (Shape.of { s.level options with orders := orders } (c.prepared options))
        { s.level options with orders := orders } (c.prepared options)).result = .ok q := by
  obtain ⟨orders, horders, hstrategy, hq⟩ := compile_eq_ok hc hq
  have hcore := Scope.core_eq_ok hq
  rw [hstrategy h, ← Shape.of_correlated] at hcore
  exact ⟨orders, horders, hcore⟩

/-- What a select of distinct rows in a foreign order is compiled to. -/
theorem distinctOrder_eq_ok (hc : s.body.cores.head? = some c)
    (hq : (s.compile options).result = .ok q) (h : s.strategy? options = some .distinctOrder) :
    ∃ orders, ((s.scope options).distinctKeys (s.level options).orders).result = .ok orders ∧
      ((s.scope options).distinctOrder { s.level options with orders := orders }
        (c.map (compiled options))).result = .ok q := by
  obtain ⟨orders, horders, hstrategy, hq⟩ := compile_eq_ok hc hq
  have hcore := Scope.core_eq_ok hq
  rw [hstrategy h] at hcore
  exact ⟨orders, horders, hcore⟩

/-- What a plain select is compiled to. -/
theorem plain_eq_ok (hc : s.body.cores.head? = some c)
    (hq : (s.compile options).result = .ok q) (h : s.strategy? options = some .plain) :
    ∃ orders, ((s.scope options).distinctKeys (s.level options).orders).result = .ok orders ∧
      (Shape.of { s.level options with orders := orders } (c.prepared options)).strategy = .plain ∧
      ((s.scope options).plain
        (Shape.of { s.level options with orders := orders } (c.prepared options))
        { s.level options with orders := orders } (c.prepared options)).result = .ok q := by
  obtain ⟨orders, horders, hstrategy, hq⟩ := compile_eq_ok hc hq
  have hcore := Scope.core_eq_ok hq
  rw [hstrategy h, ← Shape.of_correlated] at hcore
  have hshape := Shape.of_correlated { s.level options with orders := orders }
    (c.map (compiled options))
  exact ⟨orders, horders, (congrArg Shape.strategy hshape).trans (hstrategy h), hcore⟩

/-- An integer is the same at every level. -/
theorem level_int (options : Options) {e : Option (Expr Select)} {i : Option Int64}
    (h : e = i.map .int) :
    e.map (·.map (compiled options)) = i.map .int := by
  rw [h]
  cases i <;> rfl

end Select

end Transact
