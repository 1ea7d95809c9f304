import Transact.Proofs.DistinctOrder
import Transact.Proofs.Equality
import Transact.Proofs.Plan.Runs

/-!
# Columns for distinct rows in an order

`Expr.columnsForDistinct` adds to a list of columns what distinct rows need to be sorted.
Main statement: `Select.columnsForDistinct_suffice`. Only missing sort expressions are added, each
of them once, and distinct rows of the extended list are never sorted by a foreign order.
-/

set_option autoImplicit false

namespace Transact

section

variable {σ : Type} [BEq σ]

/-! ## Added columns -/

/-- Sort expressions that a list of columns lacks, none of them twice. -/
structure Expr.Missing (columns : List (Expr σ)) (keys : List (SortKey σ)) (added : List (Expr σ)) :
    Prop where
  sorts : ∀ e ∈ added, ∃ k ∈ keys, k.expr = e
  lacks : ∀ e ∈ added, columns.contains e = false
  differ : added.Pairwise fun e e' => (e' == e) = false

namespace Expr

variable {columns added : List (Expr σ)} {keys : List (SortKey σ)} {k : SortKey σ}

theorem Missing.cons_key (h : Missing columns keys added) : Missing columns (k :: keys) added where
  sorts e he := by
    obtain ⟨k', hk', hexpr⟩ := h.sorts e he
    exact ⟨k', List.mem_cons_of_mem _ hk', hexpr⟩
  lacks := h.lacks
  differ := h.differ

theorem Missing.cons (hk : columns.contains k.expr = false)
    (h : Missing (columns ++ [k.expr]) keys added) :
    Missing columns (k :: keys) (k.expr :: added) := by
  have hlacks : ∀ e ∈ added, columns.contains e = false ∧ (e == k.expr) = false := by
    simpa using h.lacks
  constructor
  · intro e he
    obtain rfl | he := List.mem_cons.1 he
    · exact ⟨k, List.mem_cons_self, rfl⟩
    · exact h.cons_key.sorts e he
  · intro e he
    obtain rfl | he := List.mem_cons.1 he
    · exact hk
    · exact (hlacks e he).1
  · exact List.pairwise_cons.2 ⟨fun e he => (hlacks e he).2, h.differ⟩

theorem columnsForDistinct_eq_append (columns : List (Expr σ)) (keys : List (SortKey σ)) :
    ∃ added, columnsForDistinct columns keys = columns ++ added ∧ Missing columns keys added := by
  induction keys generalizing columns with
  | nil => exact ⟨[], by simp [columnsForDistinct], by constructor <;> simp⟩
  | cons k keys ih =>
    rw [columnsForDistinct, List.foldl_cons]
    split
    · obtain ⟨added, hadded, hmissing⟩ := ih columns
      exact ⟨added, hadded, hmissing.cons_key⟩
    · next hk =>
      obtain ⟨added, hadded, hmissing⟩ := ih (columns ++ [k.expr])
      refine ⟨k.expr :: added, ?_, hmissing.cons (Bool.eq_false_of_not_eq_true hk)⟩
      exact hadded.trans (List.append_cons columns k.expr added).symm

/-- A column stays. -/
theorem contains_columnsForDistinct_of_contains {e : Expr σ} (h : columns.contains e = true) :
    (columnsForDistinct columns keys).contains e = true := by
  obtain ⟨added, hadded, -⟩ := columnsForDistinct_eq_append columns keys
  rw [hadded, List.contains_append, h, Bool.true_or]

/-- A sort expression that equals itself is among the columns. -/
theorem contains_columnsForDistinct_of_beq_self (hself : (k.expr == k.expr) = true)
    (hk : k ∈ keys) : (columnsForDistinct columns keys).contains k.expr = true := by
  induction keys generalizing columns with
  | nil => cases hk
  | cons k' keys ih =>
    rw [columnsForDistinct, List.foldl_cons]
    obtain rfl | hk := List.mem_cons.1 hk
    · apply contains_columnsForDistinct_of_contains
      split
      · assumption
      · simp [hself]
    · exact ih hk

theorem contains_columnsForDistinct (hself : ∀ e : Expr σ, (e == e) = true) (hk : k ∈ keys) :
    (columnsForDistinct columns keys).contains k.expr = true :=
  contains_columnsForDistinct_of_beq_self (hself k.expr) hk

theorem columnsForDistinct_eq_self (h : ∀ k ∈ keys, columns.contains k.expr = true) :
    columnsForDistinct columns keys = columns := by
  induction keys with
  | nil => rfl
  | cons k keys ih =>
    obtain ⟨hk, hkeys⟩ := List.forall_mem_cons.1 h
    rw [columnsForDistinct, List.foldl_cons, if_pos hk]
    exact ih hkeys

end Expr

/-! ## Covered orders -/

/-- An expression is covered by an equal one. -/
theorem isCovered_of_beq {projections : List (Expr σ)} {key p : Expr σ}
    (hp : p.normalized ∈ projections.map Expr.normalized) (h : (key == p) = true) :
    isCovered projections key = true := by
  have hprojected : (projections.map Expr.normalized).contains key.normalized = true :=
    List.contains_iff_exists_mem_beq.2 ⟨p.normalized, hp, Expr.sameWith_normalized h⟩
  unfold isCovered
  split
  all_goals simp only [hprojected, Bool.or_true]

theorem Shape.strategy_ne_distinctOrder {s : SelectBody σ} {c : Core σ}
    (h : ∀ k ∈ s.orders, isCovered c.projections k.expr = true) :
    (Shape.of s c).strategy ≠ .distinctOrder := by
  have hforeign : (Shape.of s c).foreignOrder = false := by
    refine List.any_eq_false.2 fun k hk => ?_
    simp [h k hk]
  simp [strategy, hforeign, ite_eq_iff]

/-- Distinct rows are sorted by a foreign order only where a sort expression is not covered. -/
theorem SelectBody.strategy?_ne_distinctOrder {options : Options} {subquery : σ → Trace Query}
    {s : SelectBody σ} (h : ∀ c, s.cores.head? = some c → ∀ k ∈ s.orders,
      isCovered c.projections k.expr = true) :
    s.strategy? options subquery ≠ some .distinctOrder := by
  unfold strategy?
  split
  · next c cores orders hcores horders =>
    have hsubset := Scope.distinctKeys_subset _ horders
    have hne := Shape.strategy_ne_distinctOrder (s := { s with orders }) (c := c) fun k hk =>
      h c (by rw [hcores]; rfl) k (hsubset hk)
    exact fun heq => hne (Option.some.inj heq)
  · exact fun heq => nomatch heq

end

section

variable {σ τ : Type}

/-- The core has these projections, their aliases, marks and letter case apart. It may ask for
distinct rows of them by its quantifier, or by a mark on the first of them or below its alias. -/
def Core.Projects (c : Core σ) (projections : List (Expr σ)) : Prop :=
  c.projections.map Expr.normalized = projections.map Expr.normalized

theorem Core.Projects.map {c : Core σ} {projections : List (Expr σ)} (f : σ → τ)
    (h : c.Projects projections) : (c.map f).Projects (projections.map (·.map f)) := by
  have hnormalized : ∀ es : List (Expr σ),
      (es.map (·.map f)).map Expr.normalized = (es.map Expr.normalized).map (·.map f) := by
    intro es
    simp only [List.map_map, Function.comp_def, Expr.normalized_map]
  rw [Projects, Core.map, hnormalized, h, hnormalized]

end

namespace Select

/-- Expressions are equal when they are so after their subqueries are compiled. -/
theorem beq_map_compiled (options : Options) (e e' : Expr Select) :
    (e.map (compiled options) == e'.map (compiled options)) = (e == e') := by
  refine (Expr.sameWith_map (compiled options) (· == ·) e e').trans ?_
  simp only [BEq.beq, source_compiled]

/-- Rows of projections that contain every sort expression have no foreign order. -/
theorem strategy?_ne_distinctOrder (options : Options) {s : Select} {c : Core Select}
    {projections : List (Expr Select)} (hc : s.body.cores.head? = some c)
    (hprojects : c.Projects projections)
    (hkeys : ∀ k ∈ s.body.orders, projections.contains k.expr = true) :
    s.strategy? options ≠ some .distinctOrder := by
  refine SelectBody.strategy?_ne_distinctOrder fun c' hc' k' hk' => ?_
  rw [level_cores_head? options hc] at hc'
  obtain rfl := Option.some.inj hc'
  obtain ⟨k, hk, rfl⟩ := List.mem_map.1 hk'
  obtain ⟨p, hp, hbeq⟩ := List.contains_iff_exists_mem_beq.1 (hkeys k hk)
  have hmem : (p.map (compiled options)).normalized ∈
      (c.map (compiled options)).projections.map Expr.normalized := by
    rw [hprojects.map (compiled options)]
    exact List.mem_map_of_mem (List.mem_map_of_mem hp)
  exact isCovered_of_beq hmem ((beq_map_compiled options k.expr p).trans hbeq)

/-- **Columns for distinct rows** in an order are the given ones and the sort expressions that they
lack, each of them once. The columns then contain every sort expression, and there is nothing to
add to them. Distinct rows of these columns, by quantifier or by mark, have no foreign order, and
neither have other rows of them. -/
theorem columnsForDistinct_suffice (columns : List (Expr Select)) (keys : List (SortKey Select)) :
    (∃ added, Expr.columnsForDistinct columns keys = columns ++ added ∧
      Expr.Missing columns keys added) ∧
    (∀ k ∈ keys, (Expr.columnsForDistinct columns keys).contains k.expr = true) ∧
    Expr.columnsForDistinct (Expr.columnsForDistinct columns keys) keys =
      Expr.columnsForDistinct columns keys ∧
    ∀ (options : Options) (s : Select) (c : Core Select), s.body.cores.head? = some c →
      s.body.orders = keys → c.Projects (Expr.columnsForDistinct columns keys) →
        s.strategy? options ≠ some .distinctOrder := by
  have hcontains : ∀ k ∈ keys, (Expr.columnsForDistinct columns keys).contains k.expr = true :=
    fun k hk => Expr.contains_columnsForDistinct Expr.beq_self hk
  refine ⟨Expr.columnsForDistinct_eq_append columns keys, hcontains,
    Expr.columnsForDistinct_eq_self hcontains, ?_⟩
  intro options s c hc horders hprojects
  apply strategy?_ne_distinctOrder options hc hprojects
  rwa [horders]

end Select

/-- The size of a zero, as a sort key. -/
def absoluteZero (negative : Bool) : Expr Select :=
  .call "ABS" [.literal (.float (.zero negative))]

/-- An order by a column and by equal trees. -/
def equalZerosOrder : List (SortKey Select) :=
  [(Expr.named "name").desc, (absoluteZero false).asc, (absoluteZero true).desc]

/-- Rows of a table in that order. -/
def equalZerosSelect (core : Core Select) : Select :=
  .of { cores := [{ core with source := some (.table { name := "t" }) }]
        orders := equalZerosOrder }

/-- The mark may be put on the first column, below its alias, or be there from the start. -/
theorem Select.columnsForDistinct_suffice_equalZeros :
    Expr.columnsForDistinct [.alias (.named "name") "n"] equalZerosOrder =
        [.alias (.named "name") "n", .named "name", absoluteZero false] ∧
      (equalZerosSelect { projections := [.distinct (.alias (.named "name") "n")] }).strategy? {} =
        some .distinctOrder ∧
      (equalZerosSelect { projections := [.distinct (.alias (.named "name") "n"), .named "name",
        absoluteZero false] }).strategy? {} ≠ some .distinctOrder ∧
      (equalZerosSelect { projections := [.alias (.distinct (.named "name")) "n", .named "name",
        absoluteZero false] }).strategy? {} ≠ some .distinctOrder ∧
      (equalZerosSelect { projections := (Expr.columnsForDistinct [.distinct (.named "name")]
        equalZerosOrder) }).strategy? {} ≠ some .distinctOrder := by
  obtain ⟨-, -, -, h⟩ := columnsForDistinct_suffice [.alias (.named "name") "n"] equalZerosOrder
  obtain ⟨-, -, -, hmarked⟩ :=
    columnsForDistinct_suffice [.distinct (.named "name")] equalZerosOrder
  exact ⟨by rfl, by decide +kernel, h {} _ _ rfl rfl rfl, h {} _ _ rfl rfl rfl,
    hmarked {} _ _ rfl rfl rfl⟩

end Transact
