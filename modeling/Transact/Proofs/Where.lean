import Transact.Compile
import Transact.Proofs.Plan.Scope
import Transact.Proofs.Sql.Reader

/-!
# What a `WHERE` means

The conditions of a select are joined by `AND`, and the text of a condition has parentheses only
where the condition says so. `Sql.condition?` reads the text back by precedence.

* `Sql.Condition.reads_sql`: the text of a condition has the tokens of the condition.
* `Sql.Condition.reads_join`: the text of several conditions has the tokens of their conjunction.
* `Scope.wheres_mean_conjunction`: the text means the conjunction of the conditions when no `OR` is
  exposed to an `AND`, and only then, if no comparison occurs twice.
-/

set_option autoImplicit false

namespace Transact

namespace Sql

open Text

variable {σ τ : Type}

/-! ## Expressions -/

def Operand.expr : Operand → Expr σ
  | .column c => .column c
  | .null => .literal .null
  | .integer i => .int i
  | .text s => .textConstant s.1

def Comparison.expr (a : Comparison) : Expr σ :=
  .binary a.left.expr a.comparator.op a.right.expr

/-- The expression of a condition. -/
def Condition.expr : Condition Comparison → Expr σ
  | .compare a => a.expr
  | .and l r => .binary (expr l) .and (expr r)
  | .or l r => .binary (expr l) .or (expr r)
  | .not c => .not (expr c)
  | .group c => .grouping (expr c)

theorem Operand.expr_map (f : σ → τ) (o : Operand) : (o.expr : Expr σ).map f = o.expr := by
  cases o <;> simp [expr, Expr.map, Expr.int, Expr.textConstant]

theorem Condition.expr_map (f : σ → τ) (c : Condition Comparison) :
    (c.expr : Expr σ).map f = c.expr := by
  induction c with
  | compare a => simp [expr, Comparison.expr, Expr.map, Operand.expr_map]
  | and l r hl hr | or l r hl hr => rw [expr, Expr.map, hl, hr, expr]
  | not c ih | group c ih => rw [expr, Expr.map, ih, expr]

theorem Operand.expr_mapM {m : Type → Type} [Monad m] [LawfulMonad m] (f : σ → m τ) (o : Operand) :
    (o.expr : Expr σ).mapM f = pure o.expr := by
  cases o <;> simp [expr, Expr.mapM, Expr.int, Expr.textConstant]

theorem Condition.expr_mapM {m : Type → Type} [Monad m] [LawfulMonad m] (f : σ → m τ)
    (c : Condition Comparison) : (c.expr : Expr σ).mapM f = pure c.expr := by
  induction c with
  | compare a => simp [expr, Comparison.expr, Expr.mapM, Operand.expr_mapM]
  | and l r hl hr | or l r hl hr => simp [expr, Expr.mapM, hl, hr]
  | not c ih | group c ih => simp [expr, Expr.mapM, ih]

/-! ## Texts -/

theorem sql_column (c : ColumnRef) : c.sql = join "." (c.path.map Sql.name) := by
  obtain ⟨table, name⟩ := c
  cases table with
  | none => rfl
  | some table =>
    have hnames : (split '.' table.toList).map bracketed =
        ((split '.' table.toList).map String.ofList).map Sql.name := by
      simp [Sql.name]
    rw [ColumnRef.path, Option.elim_some, List.map_append, List.map_singleton,
      join_append _ _ [] (by simp [split_ne_nil]), ← hnames]
    rfl

theorem Operand.reads_sql (collation : String) (o : Operand) :
    Reads ((o.expr : Expr String).sql collation) o.tokens := by
  cases o with
  | column c =>
    rw [expr, Expr.sql, sql_column]
    exact Reads.path (by simp [ColumnRef.path])
  | null =>
    rw [expr, Expr.sql]
    exact Reads.word (by decide) (by decide)
  | integer i =>
    rw [expr, Expr.int, Expr.sql]
    exact Reads.integer i.toInt
  | text s =>
    rw [expr, Expr.textConstant, Expr.sql]
    exact Reads.national s.2

theorem Comparator.reads_keyword (o : Comparator) :
    Reads o.op.keyword [.sign o.op.keyword] := by
  cases o <;> exact Reads.sign (by decide) (by decide)

namespace Condition

/-- **The text of a condition** has the tokens of the condition. -/
theorem reads_sql (collation : String) (c : Condition Comparison) :
    Reads ((c.expr : Expr String).sql collation) c.tokens := by
  induction c with
  | compare a =>
    rw [expr, Comparison.expr, Expr.sql]
    exact (a.left.reads_sql collation).between a.comparator.reads_keyword
      (a.right.reads_sql collation)
  | and l r hl hr =>
    rw [expr, Expr.sql]
    exact hl.between (Reads.word (by decide) (by decide)) hr
  | or l r hl hr =>
    rw [expr, Expr.sql]
    exact hl.between (Reads.word (by decide) (by decide)) hr
  | not c ih =>
    have htext : ∀ text : String,
        "NOT (" ++ text ++ ")" = "NOT" ++ " " ++ ("(" ++ text ++ ")") := by
      intro text
      simp only [← String.append_assoc]
      rfl
    rw [expr, Expr.sql, htext]
    exact (Reads.word (by decide) (by decide)).blank ih.parens
  | group c ih =>
    rw [expr, Expr.sql]
    exact ih.parens

variable {α : Type}

/-- The conjunction of conditions. -/
def conj (p : Condition α) (ps : List (Condition α)) : Condition α := ps.foldl .and p

/-- No `OR` of the conditions is exposed to an `AND`, of theirs or between them. -/
def areGrouped (ps : List (Condition α)) : Bool :=
  ps.all isGrouped && (ps.length ≤ 1 || ps.all fun p => !p.exposesOr)

theorem value_conj (v : α → Truth) (p : Condition α) (ps : List (Condition α)) :
    (conj p ps).value v = Truth.all ((p :: ps).map (value v)) := by
  induction ps generalizing p with
  | nil => exact (Truth.and_true _).symm
  | cons q ps ih =>
    show (conj (p.and q) ps).value v = _
    rw [ih, List.map_cons, Truth.all, List.foldr_cons, value, Truth.and_assoc]
    rfl

theorem comparisons_conj (p : Condition α) (ps : List (Condition α)) :
    (conj p ps).comparisons = (p :: ps).flatMap comparisons := by
  induction ps generalizing p with
  | nil => simp [conj]
  | cons q ps ih =>
    show (conj (p.and q) ps).comparisons = _
    rw [ih]
    simp [comparisons]

theorem isGrouped_conj (p : Condition α) (ps : List (Condition α)) :
    (conj p ps).isGrouped = areGrouped (p :: ps) := by
  induction ps generalizing p with
  | nil => simp [conj, areGrouped]
  | cons q ps ih =>
    show (conj (p.and q) ps).isGrouped = _
    rw [ih, Bool.eq_iff_iff]
    cases ps with
    | nil =>
      simp [areGrouped, isGrouped, exposesOr]
      tauto
    | cons q' ps =>
      simp [areGrouped, isGrouped, exposesOr]
      tauto

theorem tokens_conj (p : Condition Comparison) (ps : List (Condition Comparison)) :
    (conj p ps).tokens = p.tokens ++ ps.flatMap fun q => .word "AND" :: q.tokens := by
  induction ps generalizing p with
  | nil => simp [conj]
  | cons q ps ih =>
    show (conj (p.and q) ps).tokens = _
    rw [ih, tokens]
    simp

/-- **The text of several conditions** has the tokens of their conjunction. -/
theorem reads_join (collation : String) (p : Condition Comparison)
    (ps : List (Condition Comparison)) :
    Reads (join " AND " ((p :: ps).map fun q => (q.expr : Expr String).sql collation))
      (conj p ps).tokens := by
  rw [tokens_conj]
  induction ps generalizing p with
  | nil =>
    simp only [List.flatMap_nil, List.append_nil]
    exact p.reads_sql collation
  | cons q ps ih =>
    have htext : ∀ a b : String, a ++ " AND " ++ b = a ++ " " ++ "AND" ++ " " ++ b := by
      intro a b
      simp only [String.append_assoc]
      rfl
    rw [List.map_cons, List.map_cons, join, htext]
    exact (p.reads_sql collation).between (Reads.word (by decide) (by decide)) (ih q)

end Condition

end Sql

/-! ## The conditions of a select -/

open Sql Text

/-- **The text of a `WHERE`** is read back as a condition. It means the conjunction of the
conditions that were given when no `OR` is exposed to an `AND`, and only then if no comparison
occurs twice. -/
theorem Scope.wheres_mean_conjunction {σ : Type} (sc : Scope σ) (p : Condition Comparison)
    (ps : List (Condition Comparison)) :
    ∃ (filters : List (Expr Query)) (text : String) (c : Condition Comparison),
      (sc.exprs ((p :: ps).map Condition.expr)).result = .ok filters ∧
      clause "WHERE" " AND " (filters.map (Expr.querySql sc.options.collation)) =
        ["WHERE " ++ text] ∧
      condition? text = some c ∧
      (Condition.areGrouped (p :: ps) = true →
        ∀ v, c.value v = Truth.all ((p :: ps).map (Condition.value v))) ∧
      (((p :: ps).flatMap Condition.comparisons).Nodup →
        (∀ v : Comparison → Bool, c.value (Condition.ofBools v) =
          Truth.all ((p :: ps).map (Condition.value (Condition.ofBools v)))) →
        Condition.areGrouped (p :: ps) = true) := by
  have hfilters : ∀ qs : List (Condition Comparison),
      sc.exprs (qs.map Condition.expr) = pure (qs.map Condition.expr) := by
    intro qs
    induction qs with
    | nil => rfl
    | cons q qs ih =>
      rw [Scope.exprs] at ih ⊢
      simp [Expr.mapListM, Condition.expr_mapM, ih]
  have htexts : ((p :: ps).map Condition.expr).map (Expr.querySql sc.options.collation) =
      (p :: ps).map fun q => (q.expr : Expr String).sql sc.options.collation := by
    simp [Expr.querySql, Condition.expr_map]
  refine ⟨(p :: ps).map Condition.expr, _, (Condition.conj p ps).reread, ?_, ?_,
    condition?_of_reads (Condition.reads_join sc.options.collation p ps), ?_, ?_⟩
  · rw [hfilters]
    rfl
  · rw [htexts]
    rfl
  · intro hgrouped v
    rw [← Condition.isGrouped_conj] at hgrouped
    rw [Condition.value_reread, Condition.read_of_isGrouped v hgrouped, Condition.value_conj]
  · intro hnodup h
    by_contra hgrouped
    rw [← Condition.isGrouped_conj, Bool.not_eq_true] at hgrouped
    rw [← Condition.comparisons_conj] at hnodup
    obtain ⟨v, hv⟩ := Condition.exists_read_ne hnodup hgrouped
    refine hv ?_
    rw [← Condition.value_reread, h, Condition.value_conj]

/-- The comparison of two columns for equality. -/
def sameColumn (a b : String) : Comparison := ⟨.column ⟨none, a⟩, .eq, .column ⟨none, b⟩⟩

theorem wheres_mean_conjunction_grouped :
    ∃ (text : String) (c : Condition Comparison),
      text = "([a] = [b] OR [c] = [d]) AND [e] = [f]" ∧ condition? text = some c ∧
        ∀ v, c.value v =
          ((v (sameColumn "a" "b")).or (v (sameColumn "c" "d"))).and (v (sameColumn "e" "f")) := by
  obtain ⟨filters, text, c, hfilters, htext, hc, hgrouped, -⟩ :=
    Scope.wheres_mean_conjunction (⟨{}, .preferred, fun s => s.compile {}⟩ : Scope Select)
      (.group (.or (.compare (sameColumn "a" "b")) (.compare (sameColumn "c" "d"))))
      [.compare (sameColumn "e" "f")]
  refine ⟨text, c, ?_, hc, fun v => ?_⟩
  · cases hfilters
    have hhead : "WHERE " ++ "([a] = [b] OR [c] = [d]) AND [e] = [f]" = "WHERE " ++ text := by
      rw [← (List.cons.inj htext).1]
      decide +kernel
    exact (String.append_right_inj _).1 hhead.symm
  · rw [hgrouped rfl v]
    exact congrArg _ (Truth.and_true _)

/-- One of two equations, and a third. -/
def eitherAndThird : List (Condition Comparison) :=
  [.or (.compare (sameColumn "a" "b")) (.compare (sameColumn "c" "d")),
    .compare (sameColumn "e" "f")]

/-- The rows for which one of two equations holds, and a third. -/
def eitherAndThirdRows : Select :=
  .of
    { cores :=
        [{ projections := [.star]
           source := some (.table { name := "t" })
           wheres := eitherAndThird.map Condition.expr }] }

theorem wheres_mean_another_disjunction :
    Statement.sql {} (.select eitherAndThirdRows) =
        .ok "SELECT * FROM [t] WHERE [a] = [b] OR [c] = [d] AND [e] = [f]" ∧
      ∃ c, condition? "[a] = [b] OR [c] = [d] AND [e] = [f]" = some c ∧
        ∃ v, c.value v = .true ∧ Truth.all (eitherAndThird.map (Condition.value v)) = .false := by
  refine ⟨by decide +kernel, _, rfl, fun a => if a = sameColumn "e" "f" then .false else .true, ?_⟩
  decide +kernel

end Transact
