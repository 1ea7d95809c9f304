import Transact.Proofs.Plan.Runs

/-!
# When compilation fails

A select that has a core is compiled exactly when the subqueries that it needs are, as long as its
projections have none; an update exactly when the subqueries are that it writes. Whatever fails, it
fails because some select has no core.

* `SelectBody.runs_compile`: the subqueries that a level runs.
* `SelectBody.compile_error`: a level fails because it has no core, or as one of its subqueries.
* `Statement.sql_outcome`: both for statements.
-/

set_option autoImplicit false

namespace Transact

open Transact.Expr (subqueriesList)
open Trace (Runs)

/-! ## One level -/

section

variable {σ τ : Type}

theorem SelectBody.needed_map (f : σ → τ) (s : SelectBody σ) (c : Core σ) :
    (s.map f).needed (c.map f) = (s.needed c).map (·.map f) := by
  have hoption : ∀ e : Option (Expr σ), (e.map (·.map f)).toList = e.toList.map (·.map f) := by
    intro e
    cases e <;> rfl
  have hsource : ∀ s : Source σ, (s.map f).usedConditions = s.usedConditions.map (·.map f) := by
    intro s
    induction s with
    | table _ => rfl
    | raw _ => rfl
    | join kind left right condition hleft hright =>
      simp only [Source.map, Source.usedConditions, hleft, hright, hoption, List.map_append]
      split <;> rfl
  have hrows : (c.source.map (·.map f)).toList.flatMap Source.usedConditions =
      (c.source.toList.flatMap Source.usedConditions).map (·.map f) := by
    cases c.source <;> simp [hsource]
  simp only [needed, Core.needed, map, Core.map, hoption, hrows, List.map_append, List.map_map]
  rfl

theorem SelectBody.needed_subset_exprs {s : SelectBody σ} {c : Core σ} {cores : List (Core σ)}
    (hc : s.cores = c :: cores) : s.needed c ++ c.projections ⊆ s.exprs := by
  have hsource : c.source.toList.flatMap Source.usedConditions ⊆
      c.source.toList.flatMap Source.conditions := by
    cases c.source <;> simp [Source.usedConditions_subset]
  intro e he
  have := @hsource e
  simp only [needed, Core.needed, exprs, Core.exprs, hc, List.flatMap_cons, List.mem_append] at *
  grind

variable [BEq σ] {options : Options} {subquery : σ → Trace Query} {s : SelectBody σ}

/-- **A level with a core** compiles what it needs, and fails as one of the subqueries that it needs
or projects. -/
theorem SelectBody.runs_compile {c : Core σ} {cores : List (Core σ)} (hc : s.cores = c :: cores) :
    Runs subquery (subqueriesList (s.needed c)) (subqueriesList (s.needed c ++ c.projections))
      (s.compile options subquery) := by
  have hcore : ∀ orders, ((s.scope options subquery).distinctKeys s.orders).result = .ok orders →
      Runs subquery (subqueriesList (c.needed ++ s.limit.toList ++ s.offset.toList))
        (subqueriesList (s.needed c ++ c.projections))
        ((s.scope options subquery).core { s with orders := orders } c) := by
    intro orders horders
    have h := Scope.compiles_core (s.scope options subquery) { s with orders := orders } c
    refine Runs.mono h (List.Subset.refl _) ?_
    have hsub := Expr.subqueriesList_mono
      (List.map_subset (·.expr) (Scope.distinctKeys_subset _ horders))
    intro q hq
    have := @hsub q
    simp only [SelectBody.needed, Expr.subqueriesList_append, List.mem_append] at *
    grind
  refine Runs.congr ?_ (s.compile_result options subquery)
  simp only [hc]
  refine Runs.mono ((Scope.runs_distinctKeys _ s.orders).bind_on hcore) ?_ ?_
  · intro q hq
    simp only [SelectBody.needed, Expr.subqueriesList_append, List.mem_append] at *
    grind
  · intro q hq
    simp only [SelectBody.needed, Expr.subqueriesList_append, List.mem_append] at *
    grind

/-- **A level fails** because it has no core, or as one of its subqueries. -/
theorem SelectBody.compile_error {e : CompileError}
    (h : (s.compile options subquery).result = .error e) :
    e = .noCore ∨ ∃ x ∈ s.exprs, ∃ q ∈ x.subqueries, (subquery q).result = .error e := by
  cases hc : s.cores with
  | cons c cores =>
    obtain ⟨q, hq, hfails⟩ := (runs_compile hc).error e h
    obtain ⟨x, hx, hq⟩ := Expr.mem_subqueriesList.1 hq
    exact .inr ⟨x, needed_subset_exprs hc hx, q, hq, hfails⟩
  | nil =>
    rw [SelectBody.compile_result, hc] at h
    cases horders : ((s.scope options subquery).distinctKeys s.orders).result with
    | ok orders =>
      rw [Trace.bind_ok horders] at h
      exact .inl (Except.error.inj h).symm
    | error e' =>
      rw [Trace.bind_error horders] at h
      obtain rfl := Except.error.inj h
      obtain ⟨q, hq, hfails⟩ := (Scope.runs_distinctKeys _ s.orders).error _ horders
      obtain ⟨x, hx, hq⟩ := Expr.mem_subqueriesList.1 hq
      -- the order is read before the core is looked for
      refine .inr ⟨x, ?_, q, hq, hfails⟩
      simp only [exprs, List.mem_append]
      exact .inl (.inl (.inr hx))

end

/-! ## All levels -/

namespace Select

variable (options : Options)

/-- **A select fails** only because some select in it has no core. -/
theorem compile_error (s : Select) :
    ∀ e, (s.compile options).result = .error e → e = .noCore := by
  revert s
  refine induction ?_
  intro body ih e he
  rw [compile_eq] at he
  rcases SelectBody.compile_error he with rfl | ⟨x, hx, q, hq, hfails⟩
  · rfl
  · rw [level, Select.body, SelectBody.exprs_map] at hx
    obtain ⟨x', hx', rfl⟩ := List.mem_map.1 hx
    rw [Expr.subqueries_map] at hq
    obtain ⟨q', hq', rfl⟩ := List.mem_map.1 hq
    exact ih x' hx' q' hq' e hfails

theorem level_cores {s : Select} {c : Core Select} {cores : List (Core Select)}
    (hcores : s.body.cores = c :: cores) : (s.level options).cores =
      c.map (compiled options) :: cores.map (·.map (compiled options)) := by
  rw [level, SelectBody.map, hcores, List.map_cons]

/-- **A select with a core succeeds** exactly when the subqueries that it needs do. -/
theorem isOk_compile_iff {s : Select} {c : Core Select} {cores : List (Core Select)}
    (hcores : s.body.cores = c :: cores) (hprojections : subqueriesList c.projections = []) :
    (∃ q, (s.compile options).result = .ok q) ↔
      ∀ q ∈ subqueriesList (s.body.needed c), ∃ q', (q.compile options).result = .ok q' := by
  have hc := level_cores options hcores
  have hnone : subqueriesList (c.map (compiled options)).projections = [] := by
    rw [Core.map, ← Expr.mapList_eq, Expr.subqueriesList_map, hprojections, List.map_nil]
  have hruns : Runs Compiled.query _ _ ((s.level options).compile options Compiled.query) :=
    SelectBody.runs_compile hc
  rw [Expr.subqueriesList_append, hnone, List.append_nil] at hruns
  rw [compile_eq, hruns.isOk_iff (List.Subset.refl _), level, SelectBody.needed_map,
    ← Expr.mapList_eq, Expr.subqueriesList_map]
  exact List.forall_mem_map

theorem cores_ne_nil {s : Select} {q : Query} (h : (s.compile options).result = .ok q) :
    s.body.cores ≠ [] := by
  intro hnone
  rw [compile_eq] at h
  obtain ⟨orders, c, cores, -, hc, -⟩ := SelectBody.compile_eq_ok.1 h
  rw [level, SelectBody.map, hnone] at hc
  cases hc

end Select

/-! ## Updates -/

namespace Update

variable (options : Options) (u : Update)

/-- What an update needs: its values, conditions and limit, and its order if rows can be told
apart. -/
def needed : List (Expr Select) :=
  u.values.map Prod.snd ++ u.wheres ++ u.limit.toList ++
    if u.key.isSome || u.table.primaryKey.isSome then u.orders.map (·.expr) else []

/-- What an update compiles: the limit of an update without a key, the values and the conditions. -/
def written : List (Expr Select) :=
  (if u.isRestricted && u.keyColumn?.isNone then u.limit else none).toList ++
    u.values.map Prod.snd ++ u.conditions

theorem runs_compileValues : ∀ values : List (ColumnRef × Expr Select),
    Runs (Select.compile options) (subqueriesList (values.map Prod.snd))
      (subqueriesList (values.map Prod.snd)) (compileValues options values)
  | [] => .of_ok rfl
  | (_, e) :: values =>
    (Expr.runs_mapM _ e).bind fun _ => (runs_compileValues values).bind_pure

theorem runs_compileLimit (limit : Option (Expr Select)) :
    Runs (Select.compile options) (subqueriesList limit.toList) (subqueriesList limit.toList)
      (compileLimit options limit) := by
  cases limit with
  | none => exact .of_ok rfl
  | some e =>
    have : subqueriesList (some e).toList = e.subqueries := by simp
    rw [this]
    exact (Expr.runs_mapM _ e).bind_pure

theorem runs_compile : Runs (Select.compile options) (subqueriesList u.guarded.written)
    (subqueriesList u.guarded.written) (u.compile options) := by
  have hlimit : ∀ b : Bool, subqueriesList (if b then u.guarded.boundedLimit? else none).toList =
      subqueriesList (if b then u.guarded.limit else none).toList := by
    intro b
    cases b with
    | false => rfl
    | true => exact Expr.subqueriesList_bounded u.guarded.limit
  have hrest := (runs_compileLimit options
    (if u.guarded.isRestricted && u.guarded.keyColumn?.isNone then u.guarded.boundedLimit?
      else none)).bind fun top => (runs_compileValues options u.guarded.values).bind
    fun values => (Expr.runs_mapListM (Select.compile options) u.guarded.conditions).bind_pure
      (g := fun filters => (⟨top, u.guarded.table, values, filters⟩ : UpdateQuery))
  rw [hlimit, ← Expr.subqueriesList_append, ← Expr.subqueriesList_append,
    ← List.append_assoc] at hrest
  refine hrest.congr ?_
  unfold compile
  dsimp only
  split <;> rfl

theorem subqueriesList_needed_guarded :
    subqueriesList u.guarded.needed = subqueriesList u.needed := by
  unfold guarded
  split
  · rename_i h
    rw [Bool.and_eq_true, Option.isNone_iff_eq_none] at h
    simp only [needed, h.2, Expr.subqueriesList_append]
    rfl
  · rfl

/-- The subqueries that are compiled fail exactly when one that is needed does: those of the order
and the limit are compiled inside the select of the keys. -/
theorem written_isOk_iff :
    (∀ q ∈ subqueriesList u.written, ∃ q', (q.compile options).result = .ok q') ↔
      ∀ q ∈ subqueriesList u.needed, ∃ q', (q.compile options).result = .ok q' := by
  have hunrestricted : u.isRestricted = false → u.orders = [] ∧ u.limit = none := by
    simp [isRestricted]
  have hkeyed : u.keyColumn?.isSome = (u.key.isSome || u.table.primaryKey.isSome) := by
    simp [keyColumn?, TableRef.keyColumn?]
  unfold written needed conditions
  rw [← hkeyed]
  cases hkey : u.keyColumn? with
  | none =>
    cases hr : u.isRestricted with
    | true =>
      simp only [Option.isNone_none, Option.isSome_none, Bool.and_self, if_true,
        Bool.false_eq_true, if_false, List.append_nil, Expr.subqueriesList_append,
        List.forall_mem_append]
      grind
    | false => simp [Expr.subqueriesList_append, hunrestricted hr]
  | some key =>
    cases hr : u.isRestricted with
    | true =>
      have hselect := Select.isOk_compile_iff options (s := u.keySelect key) rfl rfl
      simp only [Select.body, keySelect, SelectBody.needed, Core.needed, Option.toList,
        List.flatMap_cons, List.flatMap_nil, Source.usedConditions, List.append_nil,
        Expr.subqueriesList_append, List.forall_mem_append] at hselect
      simp only [Option.isNone_some, Option.isSome_some, Bool.and_false, Bool.false_eq_true,
        if_false, if_true, Option.toList, List.nil_append, Expr.subqueriesList,
        Expr.subqueries, List.append_nil, Expr.subqueriesList_append, List.forall_mem_append,
        List.forall_mem_singleton, keySelect]
      rw [hselect]
      grind
    | false => simp [Expr.subqueriesList_append, hunrestricted hr]

/-- **An update succeeds** exactly when the subqueries that it needs do. -/
theorem isOk_compile_iff :
    (∃ q, (u.compile options).result = .ok q) ↔
      ∀ q ∈ subqueriesList u.needed, ∃ q', (q.compile options).result = .ok q' := by
  rw [(u.runs_compile options).isOk_iff (List.Subset.refl _), u.guarded.written_isOk_iff options,
    subqueriesList_needed_guarded]

end Update

/-! ## Statements -/

/-- The text of an update is that of its query. -/
theorem Update.sql_result (options : Options) (u : Update) :
    Statement.sql options (.update u) =
      (u.compile options).result.map (·.sql options.collation) := by
  rw [Statement.sql, Statement.trace, Statement.compile]
  cases h : (u.compile options).result with
  | ok q =>
    rw [Trace.bind_ok h]
    rfl
  | error e =>
    rw [Trace.bind_error h]
    rfl

theorem Except.isOk_map_iff {ε α β : Type} {x : Except ε α} {f : α → β} :
    (∃ b, x.map f = .ok b) ↔ ∃ a, x = .ok a := by
  cases x <;> simp [Except.map]

theorem Except.map_eq_ok_iff {ε α β : Type} {x : Except ε α} {f : α → β} {b : β} :
    x.map f = .ok b ↔ ∃ a, x = .ok a ∧ f a = b := by
  cases x <;> simp [Except.map]

theorem Except.map_eq_error_iff {ε α β : Type} {x : Except ε α} {f : α → β} {e : ε} :
    x.map f = .error e ↔ x = .error e := by
  cases x <;> simp [Except.map]

/-- **A statement has no SQL text** only because some select in it has no core. -/
theorem Statement.sql_error {options : Options} {st : Statement} {e : CompileError}
    (h : Statement.sql options st = .error e) : e = .noCore := by
  cases st with
  | select s =>
    rw [s.sql_result, Except.map_eq_error_iff] at h
    exact s.compile_error options e h
  | update u =>
    rw [u.sql_result, Except.map_eq_error_iff] at h
    obtain ⟨q, -, hq⟩ := (u.runs_compile options).error e h
    exact q.compile_error options e hq

theorem Select.isOk_sql_iff (options : Options) (s : Select) :
    (∃ text, Statement.sql options (.select s) = .ok text) ↔
      ∃ q, (s.compile options).result = .ok q := by
  rw [s.sql_result, Except.isOk_map_iff]

/-- A select whose projections have no subqueries succeeds exactly when it has a core and the
subqueries that it needs succeed. -/
theorem Select.isOk_compile_iff_needed (options : Options) {s : Select}
    (hprojections : ∀ c ∈ s.body.cores.head?, ∀ p ∈ c.projections, p.subqueries = []) :
    (∃ q, (s.compile options).result = .ok q) ↔
      ∃ c, s.body.cores.head? = some c ∧ ∀ e ∈ s.body.needed c, ∀ q ∈ e.subqueries,
        ∃ q', (q.compile options).result = .ok q' := by
  cases hcores : s.body.cores with
  | nil =>
    constructor
    · rintro ⟨q, hq⟩
      exact absurd hcores (cores_ne_nil options hq)
    · rintro ⟨c, hc, -⟩
      cases hc
  | cons c cores =>
    have hnone : subqueriesList c.projections = [] := by
      rw [hcores] at hprojections
      refine List.eq_nil_iff_forall_not_mem.2 fun q hq => ?_
      obtain ⟨p, hp, hq⟩ := Expr.mem_subqueriesList.1 hq
      rw [hprojections c rfl p hp] at hq
      cases hq
    rw [isOk_compile_iff options hcores hnone]
    simp only [Expr.mem_subqueriesList]
    constructor
    · intro h
      exact ⟨c, rfl, fun e he q hq => h q ⟨e, he, hq⟩⟩
    · rintro ⟨c', hc', h⟩ q ⟨e, he, hq⟩
      cases hc'
      exact h e he q hq

/-- **When a statement has no SQL text.** The one reason is a select without a core. A select whose
projections have no subqueries has a text exactly when it has a core and the subqueries that it
needs have texts; an update exactly when the subqueries that it needs have. -/
theorem Statement.sql_outcome (options : Options) :
    (∀ st e, Statement.sql options st = .error e →
      e.diagnostic =
        { reason := .simple "SELECT statement has no core"
          hints := ["add a core with projections and a source"]
          code := some "E0001" }) ∧
    (∀ s : Select, (∀ c ∈ s.body.cores.head?, ∀ p ∈ c.projections, p.subqueries = []) →
      ((∃ text, Statement.sql options (.select s) = .ok text) ↔
        ∃ c, s.body.cores.head? = some c ∧ ∀ e ∈ s.body.needed c, ∀ q ∈ e.subqueries,
          ∃ text, Statement.sql options (.select q) = .ok text)) ∧
    ∀ u : Update, (∃ text, Statement.sql options (.update u) = .ok text) ↔
      ∀ e ∈ u.needed, ∀ q ∈ e.subqueries,
        ∃ text, Statement.sql options (.select q) = .ok text := by
  simp only [Select.isOk_sql_iff]
  refine ⟨?_, fun s hprojections => Select.isOk_compile_iff_needed options hprojections, ?_⟩
  · intro st e he
    rw [sql_error he]
    rfl
  · intro u
    rw [u.sql_result, Except.isOk_map_iff, u.isOk_compile_iff options]
    simp only [Expr.mem_subqueriesList]
    constructor
    · intro h e he q hq
      exact h q ⟨e, he, hq⟩
    · rintro h q ⟨e, he, hq⟩
      exact h e he q hq

/-- The rows of a select without a core. -/
def inNothing : Expr Select := .inSubquery (.named "n") (.of { cores := [] }) false

/-- A page of a table that is grouped by a select without a core. -/
def groupedByNothing : Select :=
  .of
    { cores :=
        [{ projections := [.named "n"]
           source := some (.table { name := "t" })
           groups := [inNothing] }]
      offset := some (.int 1) }

/-- An update in the order of a select without a core, which has no key to keep it. -/
def orderedByNothing : Update where
  table := { name := "t" }
  values := [(⟨none, "n"⟩, .int 1)]
  wheres := []
  orders := [⟨inNothing, .asc⟩]
  limit := none
  key := none

theorem sql_outcome_nothing :
    (¬ ∃ text, Statement.sql {} (.select groupedByNothing) = .ok text) ∧
      ∃ text, Statement.sql {} (.update orderedByNothing) = .ok text := by
  obtain ⟨-, hselect, hupdate⟩ := Statement.sql_outcome {}
  constructor
  · rw [hselect groupedByNothing (by decide)]
    rintro ⟨c, hc, h⟩
    cases hc
    obtain ⟨text, htext⟩ := h inNothing List.mem_cons_self _ List.mem_cons_self
    cases htext
  · rw [hupdate orderedByNothing]
    intro e he
    obtain rfl : e = .int 1 := List.mem_singleton.1 he
    intro q hq
    cases hq

end Transact
