import Mathlib.Data.List.Forall2
import Transact.Plan.Scope

/-!
# What a successful compilation consists of

A compilation that succeeds has succeeded in each of its parts. `Trace.bind_eq_ok` takes a sequence
apart; below it, one lemma for each operation of a scope says what the parts are, so that no proof
has to open the operation again.

* `Scope.exprs_eq_ok`: expressions are compiled one by one.
* `Scope.window_eq_ok`, `Scope.frame_eq_ok`: windows and frames are compiled part by part.
-/

set_option autoImplicit false

namespace Transact

/-! ## Sequences -/

namespace Trace

variable {α β : Type}

@[simp] theorem pure_result (a : α) : (pure a : Trace α).result = .ok a := rfl

@[simp] theorem sayAll_bind_result (ms : List Message) (f : Unit → Trace β) :
    (sayAll ms >>= f).result = (f ()).result := rfl

/-- **A sequence succeeds** when its first part does and then the second. -/
theorem bind_eq_ok {t : Trace α} {f : α → Trace β} {b : β} :
    (t >>= f).result = .ok b ↔ ∃ a, t.result = .ok a ∧ (f a).result = .ok b := by
  cases h : t.result with
  | error e =>
    rw [bind_error h]
    simp
  | ok a =>
    rw [bind_ok h]
    simp

end Trace

/-! ## The operations of a scope -/

namespace Scope

variable {σ : Type} {sc : Scope σ}

/-- Expressions are compiled one by one. -/
theorem exprs_eq_ok : ∀ {es : List (Expr σ)} {es' : List (Expr Query)},
    (sc.exprs es).result = .ok es' ↔
      List.Forall₂ (fun e e' => (sc.expr e).result = .ok e') es es'
  | [], es' => by
    simp only [exprs, Expr.mapListM, Trace.pure_result, Except.ok.injEq]
    constructor
    · rintro rfl
      exact .nil
    · rintro ⟨⟩
      rfl
  | e :: es, es' => by
    simp only [exprs, Expr.mapListM, Trace.bind_eq_ok, Trace.pure_result, Except.ok.injEq]
    constructor
    · rintro ⟨e', he, rest, hrest, rfl⟩
      exact .cons he (exprs_eq_ok.1 hrest)
    · intro h
      obtain _ | ⟨he, hrest⟩ := h
      exact ⟨_, he, _, exprs_eq_ok.2 hrest, rfl⟩

theorem exists_of_mem_left {es : List (Expr σ)} {es' : List (Expr Query)}
    (h : (sc.exprs es).result = .ok es') {e : Expr σ} (he : e ∈ es) :
    ∃ e' ∈ es', (sc.expr e).result = .ok e' := by
  replace h := exprs_eq_ok.1 h
  induction h with
  | nil => simp at he
  | cons hhead _ ih =>
    rcases List.mem_cons.1 he with rfl | he
    · exact ⟨_, List.mem_cons_self, hhead⟩
    · obtain ⟨e', he', h⟩ := ih he
      exact ⟨e', List.mem_cons_of_mem _ he', h⟩

theorem exists_of_mem_right {es : List (Expr σ)} {es' : List (Expr Query)}
    (h : (sc.exprs es).result = .ok es') {e' : Expr Query} (he : e' ∈ es') :
    ∃ e ∈ es, (sc.expr e).result = .ok e' := by
  replace h := exprs_eq_ok.1 h
  induction h with
  | nil => simp at he
  | cons hhead _ ih =>
    rcases List.mem_cons.1 he with rfl | he
    · exact ⟨_, List.mem_cons_self, hhead⟩
    · obtain ⟨e, he, h⟩ := ih he
      exact ⟨e, List.mem_cons_of_mem _ he, h⟩

theorem expr?_none : (sc.expr? none).result = .ok none := rfl

theorem expr_int (i : Int64) : (sc.expr (.int i)).result = .ok (.int i) := by
  simp [expr, Expr.int, Expr.mapM]

theorem expr_column (c : ColumnRef) : (sc.expr (.column c)).result = .ok (.column c) := by
  simp [expr, Expr.mapM]

theorem expr_wildcard (sc : Scope σ) (table : Option String) :
    (sc.expr (.wildcard table)).result = .ok (.wildcard table) := by
  simp [expr, Expr.mapM]

/-- Columns stay as they are. -/
theorem exprs_columns (sc : Scope σ) (cs : List ColumnRef) :
    (sc.exprs (cs.map .column)).result = .ok (cs.map .column) := by
  rw [exprs_eq_ok, List.forall₂_map_left_iff, List.forall₂_map_right_iff]
  exact List.forall₂_same.2 fun c _ => expr_column c

theorem exprs_named (sc : Scope σ) (ns : List String) :
    (sc.exprs (ns.map .named)).result = .ok (ns.map .named) := by
  have h := sc.exprs_columns (ns.map fun n => ⟨none, n⟩)
  rw [List.map_map, List.map_map] at h
  exact h

theorem expr_alias_eq_ok {e : Expr σ} {name : String} {a : Expr Query} :
    (sc.expr (.alias e name)).result = .ok a ↔
      ∃ e', (sc.expr e).result = .ok e' ∧ a = .alias e' name := by
  simp only [expr, Expr.mapM, Trace.bind_eq_ok, Trace.pure_result, Except.ok.injEq]
  simp only [eq_comm]

/-- Integers stay as they are. -/
theorem expr?_int_eq_ok {i : Option Int64} {e : Option (Expr Query)} :
    (sc.expr? (i.map .int)).result = .ok e ↔ e = i.map .int := by
  cases i with
  | none =>
    rw [Option.map_none, Option.map_none, expr?_none, Except.ok.injEq]
    exact eq_comm
  | some i =>
    simp only [Option.map_some, expr?, Trace.bind_eq_ok, expr_int, Trace.pure_result,
      Except.ok.injEq]
    constructor
    · rintro ⟨_, rfl, rfl⟩
      rfl
    · rintro rfl
      exact ⟨_, rfl, rfl⟩

/-- A window is compiled part by part. -/
theorem window_eq_ok {ranking : Ranking} {partition : List (Expr σ)} {orders : List (SortKey σ)}
    {w : Window Query} :
    (sc.window ranking partition orders).result = .ok w ↔
      ∃ ps ks, (sc.exprs partition).result = .ok ps ∧ (sc.keys orders).result = .ok ks ∧
        w = ⟨ranking, ps, ks⟩ := by
  simp only [window, Trace.bind_eq_ok, Trace.pure_result, Except.ok.injEq]
  constructor
  · rintro ⟨ps, hps, ks, hks, rfl⟩
    exact ⟨ps, ks, hps, hks, rfl⟩
  · rintro ⟨ps, ks, hps, hks, rfl⟩
    exact ⟨ps, hps, ks, hks, rfl⟩

/-- The rows of a core are those of a source, never those of another query. -/
theorem rows_ne_derived {source : Option (Source σ)} {lock : Option Lock}
    {rows : Option (Rows Query)} (h : (sc.rows source lock).result = .ok rows) (q : Query)
    (name : String) : rows ≠ some (.derived q name) := by
  cases source with
  | none =>
    simp only [Scope.rows, Trace.pure_result, Except.ok.injEq] at h
    simp [← h]
  | some source =>
    simp only [Scope.rows, Trace.bind_eq_ok, Trace.pure_result, Except.ok.injEq] at h
    obtain ⟨source', -, rfl⟩ := h
    simp

/-- A frame is compiled part by part, and has no other parts. -/
theorem frame_eq_ok {s : SelectBody σ} {c : Core σ} {groups : List (Expr σ)}
    {f : QueryBody Query} :
    (sc.frame s c groups).result = .ok f ↔
      ∃ rows filters groups' having, (sc.rows c.source s.lock).result = .ok rows ∧
        (sc.exprs c.wheres).result = .ok filters ∧ (sc.exprs groups).result = .ok groups' ∧
        (sc.expr? c.having).result = .ok having ∧
        f = { rows := rows, filters := filters, groups := groups', having := having } := by
  simp only [frame, Trace.bind_eq_ok, Trace.pure_result, Except.ok.injEq]
  constructor
  · rintro ⟨rows, hr, filters, hf, groups', hg, having, hh, rfl⟩
    exact ⟨rows, filters, groups', having, hr, hf, hg, hh, rfl⟩
  · rintro ⟨rows, filters, groups', having, hr, hf, hg, hh, rfl⟩
    exact ⟨rows, hr, filters, hf, groups', hg, having, hh, rfl⟩

/-- Projections are compiled one by one, a constant `1` under an alias. -/
theorem projections_eq_ok {ps : List (Expr σ)} {columns : List (Column Query)} :
    (sc.projections ps).result = .ok columns ↔
      ∃ es, (sc.exprs (ps.map fun p =>
        if p.isLiteralOne then .alias p sc.names.one else p)).result = .ok es ∧
          columns = es.map .expr := by
  simp only [projections, Trace.bind_eq_ok, Trace.pure_result, Except.ok.injEq]
  simp only [eq_comm]

end Scope

end Transact
