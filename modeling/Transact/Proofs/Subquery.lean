import Mathlib.Logic.Relation
import Transact.Expr.Rename
import Transact.Statement

/-!
# Subqueries

`Expr.subqueries`: the subqueries in an expression at any depth. A subquery is a scope of its own,
so those inside of it do not count.

* `Expr.subqueries_bare_subset`, `Expr.subqueries_unmarked`, `Expr.subqueries_unaliased`: the
  changes that a projection goes through bring no subquery in.
* `Select.induction`: what holds of a select whenever it holds of the subqueries of its expressions
  holds of every select.
* `Statement.Nests`: the selects inside of a statement, at any depth.
-/

set_option autoImplicit false

namespace Transact

namespace Expr

variable {σ τ : Type}

mutual

/-- The subqueries in an expression, those inside other subqueries excepted. -/
@[simp] def subqueries : Expr σ → List σ
  | .column _ => []
  | .wildcard _ => []
  | .literal _ => []
  | .typed _ _ => []
  | .aggregate _ args _ => subqueriesList args
  | .call _ args => subqueriesList args
  | .alias e _ => subqueries e
  | .distinct e => subqueries e
  | .binary l _ r => subqueries l ++ subqueries r
  | .not e => subqueries e
  | .isNull e _ => subqueries e
  | .inList e list _ => subqueries e ++ subqueriesList list
  | .inSubquery e q _ => subqueries e ++ [q]
  | .grouping e => subqueries e
  | .caseSensitive e => subqueries e
  | .raw _ => []

/-- The subqueries in the expressions of a list. -/
@[simp] def subqueriesList : List (Expr σ) → List σ
  | [] => []
  | e :: es => subqueries e ++ subqueriesList es

end

theorem mem_subqueriesList {q : σ} {es : List (Expr σ)} :
    q ∈ subqueriesList es ↔ ∃ e ∈ es, q ∈ e.subqueries := by
  induction es with
  | nil => simp
  | cons e es ih => simp [ih]

/-! ## Subqueries of changed expressions -/

mutual

theorem subqueries_map (f : σ → τ) : ∀ e : Expr σ, (e.map f).subqueries = e.subqueries.map f
  | .column _ | .wildcard _ | .literal _ | .typed _ _ | .raw _ => by simp [map]
  | .aggregate _ args _ | .call _ args => by simp [map, subqueriesList_map f args]
  | .alias e _ | .distinct e | .not e | .isNull e _ | .grouping e | .caseSensitive e => by
    simp [map, subqueries_map f e]
  | .binary l _ r => by simp [map, subqueries_map f l, subqueries_map f r]
  | .inList e list _ => by simp [map, subqueries_map f e, subqueriesList_map f list]
  | .inSubquery e _ _ => by simp [map, subqueries_map f e]

theorem subqueriesList_map (f : σ → τ) : ∀ es : List (Expr σ),
    subqueriesList (mapList f es) = (subqueriesList es).map f
  | [] => rfl
  | e :: es => by
    simp [mapList, subqueries_map f e, subqueriesList_map f es]

end

mutual

theorem subqueries_rename (r : Renaming) : ∀ e : Expr σ, (e.rename r).subqueries = e.subqueries
  | .column _ | .wildcard _ | .literal _ | .typed _ _ | .raw _ => by simp [rename]
  | .aggregate _ args _ | .call _ args => by simp [rename, subqueriesList_rename r args]
  | .alias e _ | .distinct e | .not e | .isNull e _ | .grouping e | .caseSensitive e => by
    simp [rename, subqueries_rename r e]
  | .binary l _ rt => by simp [rename, subqueries_rename r l, subqueries_rename r rt]
  | .inList e list _ => by
    simp [rename, subqueries_rename r e, subqueriesList_rename r list]
  | .inSubquery e _ _ => by simp [rename, subqueries_rename r e]

theorem subqueriesList_rename (r : Renaming) : ∀ es : List (Expr σ),
    subqueriesList (renameList r es) = subqueriesList es
  | [] => rfl
  | e :: es => by
    simp [renameList, subqueries_rename r e, subqueriesList_rename r es]

end

theorem subqueries_unaliased : ∀ e : Expr σ, e.unaliased.subqueries = e.subqueries
  | .alias e _ => by simp [unaliased, subqueries_unaliased e]
  | .column _ | .wildcard _ | .literal _ | .typed _ _ | .aggregate _ _ _ | .call _ _
  | .distinct _ | .binary _ _ _ | .not _ | .isNull _ _ | .inList _ _ _ | .inSubquery _ _ _
  | .grouping _ | .caseSensitive _ | .raw _ => rfl

theorem subqueries_unmarked : ∀ e : Expr σ, e.unmarked.subqueries = e.subqueries
  | .distinct e => by simp [unmarked, subqueries_unmarked e]
  | .alias e _ => by simp [unmarked, subqueries_unmarked e]
  | .column _ | .wildcard _ | .literal _ | .typed _ _ | .aggregate _ _ _ | .call _ _
  | .binary _ _ _ | .not _ | .isNull _ _ | .inList _ _ _ | .inSubquery _ _ _
  | .grouping _ | .caseSensitive _ | .raw _ => rfl

mutual

/-- What a projection is built on has no other subqueries than the projection. -/
theorem subqueries_bare_subset : ∀ e : Expr σ, e.bare.subqueries ⊆ e.subqueries
  | .aggregate _ args _ => subqueries_bareFirst_subset args
  | .distinct e => subqueries_bare_subset e
  | .alias e _ => subqueries_bare_subset e
  | .column _ | .wildcard _ | .literal _ | .typed _ _ | .call _ _ | .binary _ _ _ | .not _
  | .isNull _ _ | .inList _ _ _ | .inSubquery _ _ _ | .grouping _ | .caseSensitive _ | .raw _ => by
    simp [bare]

theorem subqueries_bareFirst_subset : ∀ es : List (Expr σ),
    (bareFirst es).subqueries ⊆ subqueriesList es
  | [] => List.Subset.refl []
  | e :: _ => List.subset_append_of_subset_left _ (subqueries_bare_subset e)

end

end Expr

/-! ## Expressions of a level -/

section

variable {σ τ : Type}

/-- The conditions of the joins of a source. -/
def Source.conditions : Source σ → List (Expr σ)
  | .table _ => []
  | .join _ left right condition => conditions left ++ conditions right ++ condition.toList
  | .raw _ => []

/-- The tables of a source. -/
def Source.tables : Source σ → List TableRef
  | .table t => [t]
  | .join _ left right _ => tables left ++ tables right
  | .raw _ => []

/-- Some of the source is text. -/
def Source.hasRaw : Source σ → Bool
  | .table _ => false
  | .join _ left right _ => hasRaw left || hasRaw right
  | .raw _ => true

/-- The expressions of a core. -/
def Core.exprs (c : Core σ) : List (Expr σ) :=
  c.projections ++ c.wheres ++ c.groups ++ c.having.toList ++
    c.source.toList.flatMap Source.conditions

/-- The expressions of a level. -/
def SelectBody.exprs (s : SelectBody σ) : List (Expr σ) :=
  s.cores.flatMap Core.exprs ++ s.orders.map (·.expr) ++ s.limit.toList ++ s.offset.toList

theorem Source.conditions_map (f : σ → τ) : ∀ s : Source σ,
    (s.map f).conditions = s.conditions.map (·.map f)
  | .table _ => rfl
  | .raw _ => rfl
  | .join _ left right condition => by
    simp only [map, conditions, conditions_map f left, conditions_map f right, List.map_append]
    cases condition <;> rfl

theorem Core.exprs_map (f : σ → τ) (c : Core σ) : (c.map f).exprs = c.exprs.map (·.map f) := by
  obtain ⟨projections, source, wheres, groups, having, distinct⟩ := c
  cases source <;> cases having <;> simp [exprs, map, Source.conditions_map]

theorem SelectBody.exprs_map (f : σ → τ) (s : SelectBody σ) :
    (s.map f).exprs = s.exprs.map (·.map f) := by
  have hcores : (s.cores.map (·.map f)).flatMap Core.exprs =
      (s.cores.flatMap Core.exprs).map (·.map f) := by
    rw [List.flatMap_map, List.map_flatMap]
    exact congrArg (List.flatMap · s.cores) (funext fun c => c.exprs_map f)
  have hoption : ∀ e : Option (Expr σ), (e.map (·.map f)).toList = e.toList.map (·.map f) := by
    intro e
    cases e <;> rfl
  simp only [exprs, map, hcores, hoption, List.map_append, List.map_map]
  rfl

end

/-! ## Induction over selects -/

namespace Select

/-- `P` holds of a select when it holds of the subqueries of its expressions. -/
def Inductive (P : Select → Prop) : Prop :=
  ∀ body : SelectBody Select, (∀ e ∈ body.exprs, ∀ q ∈ e.subqueries, P q) → P (.of body)

variable {P : Select → Prop}

-- the recursion goes through every part of a level, as a fold does
mutual

/-- **Induction over selects**: what holds of a select whenever it holds of the subqueries of its
expressions holds of every select. -/
theorem induction (step : Inductive P) : ∀ s : Select, P s
  | .of ⟨cores, orders, limit, offset, lock⟩ => by
    have hcores := induction_cores step cores
    have horders := induction_keys step orders
    have hlimit := induction_option step limit
    have hoffset := induction_option step offset
    refine step _ fun e he => ?_
    simp only [SelectBody.exprs, List.mem_append, List.mem_flatMap, List.mem_map] at he
    rcases he with ((⟨c, hc, he⟩ | ⟨k, hk, rfl⟩) | he) | he
    · exact hcores c hc e he
    · exact horders k hk
    · exact hlimit e he
    · exact hoffset e he

theorem induction_cores (step : Inductive P) : ∀ cs : List (Core Select),
    ∀ c ∈ cs, ∀ e ∈ c.exprs, ∀ q ∈ e.subqueries, P q
  | [], _, hc => by simp at hc
  | ⟨projections, source, wheres, groups, having, distinct⟩ :: cs, c, hc => by
    have hprojections := induction_list step projections
    have hwheres := induction_list step wheres
    have hgroups := induction_list step groups
    have hhaving := induction_option step having
    have hsource := induction_sourceOption step source
    have hcores := induction_cores step cs
    rcases List.mem_cons.1 hc with rfl | hc
    · intro e he
      simp only [Core.exprs, List.mem_append, List.mem_flatMap] at he
      rcases he with (((he | he) | he) | he) | ⟨s, hs, he⟩
      · exact hprojections e he
      · exact hwheres e he
      · exact hgroups e he
      · exact hhaving e he
      · exact hsource s hs e he
    · exact hcores c hc

theorem induction_keys (step : Inductive P) : ∀ ks : List (SortKey Select),
    ∀ k ∈ ks, ∀ q ∈ k.expr.subqueries, P q
  | [], _, hk => by simp at hk
  | ⟨e, direction⟩ :: ks, k, hk => by
    have he := induction_expr step e
    have hks := induction_keys step ks
    rcases List.mem_cons.1 hk with rfl | hk
    · exact he
    · exact hks k hk

theorem induction_sourceOption (step : Inductive P) : ∀ s : Option (Source Select),
    ∀ s' ∈ s.toList, ∀ e ∈ s'.conditions, ∀ q ∈ e.subqueries, P q
  | none, _, hs => by simp at hs
  | some s, s', hs => by
    have h := induction_source step s
    obtain rfl : s' = s := by simpa using hs
    exact h

theorem induction_source (step : Inductive P) : ∀ s : Source Select,
    ∀ e ∈ s.conditions, ∀ q ∈ e.subqueries, P q
  | .table _, _, he => by simp [Source.conditions] at he
  | .raw _, _, he => by simp [Source.conditions] at he
  | .join _ left right condition, e, he => by
    have hleft := induction_source step left
    have hright := induction_source step right
    have hcondition := induction_option step condition
    simp only [Source.conditions, List.mem_append] at he
    rcases he with (he | he) | he
    · exact hleft e he
    · exact hright e he
    · exact hcondition e he

theorem induction_option (step : Inductive P) : ∀ o : Option (Expr Select),
    ∀ e ∈ o.toList, ∀ q ∈ e.subqueries, P q
  | none, _, he => by simp at he
  | some e, e', he => by
    have h := induction_expr step e
    obtain rfl : e' = e := by simpa using he
    exact h

theorem induction_list (step : Inductive P) : ∀ es : List (Expr Select),
    ∀ e ∈ es, ∀ q ∈ e.subqueries, P q
  | [], _, he => by simp at he
  | e :: es, e', he => by
    have hhead := induction_expr step e
    have htail := induction_list step es
    rcases List.mem_cons.1 he with rfl | he
    · exact hhead
    · exact htail e' he

theorem induction_expr (step : Inductive P) : ∀ e : Expr Select, ∀ q ∈ e.subqueries, P q
  | .column _ | .wildcard _ | .literal _ | .typed _ _ | .raw _ => by simp
  | .aggregate _ args _ | .call _ args => by
    have h := induction_list step args
    simp only [Expr.subqueries, Expr.mem_subqueriesList]
    rintro q ⟨e, he, hq⟩
    exact h e he q hq
  | .alias e _ | .distinct e | .not e | .isNull e _ | .grouping e | .caseSensitive e => by
    have h := induction_expr step e
    simpa using h
  | .binary l _ r => by
    have hl := induction_expr step l
    have hr := induction_expr step r
    simp only [Expr.subqueries, List.mem_append]
    rintro q (hq | hq)
    · exact hl q hq
    · exact hr q hq
  | .inList e list _ => by
    have he := induction_expr step e
    have hlist := induction_list step list
    simp only [Expr.subqueries, List.mem_append, Expr.mem_subqueriesList]
    rintro q (hq | ⟨e', he', hq⟩)
    · exact he q hq
    · exact hlist e' he' q hq
  | .inSubquery e q _ => by
    have he := induction_expr step e
    have hq := induction step q
    simp only [Expr.subqueries, List.mem_append, List.mem_singleton]
    rintro q' (hq' | rfl)
    · exact he q' hq'
    · exact hq

end

end Select

/-! ## Nested selects -/

/-- The select has the other one after an `IN`. -/
def Select.Holds (s q : Select) : Prop := ∃ e ∈ s.body.exprs, q ∈ e.subqueries

/-- The expressions of an update. -/
def Update.exprs (u : Update) : List (Expr Select) :=
  u.values.map Prod.snd ++ u.wheres ++ u.orders.map (·.expr) ++ u.limit.toList

/-- The statement has the select after an `IN`, at any depth. -/
def Statement.Nests : Statement → Select → Prop
  | .select s, q => Relation.TransGen Select.Holds s q
  | .update u, q =>
    ∃ e ∈ u.exprs, ∃ sub ∈ e.subqueries, Relation.ReflTransGen Select.Holds sub q

end Transact
