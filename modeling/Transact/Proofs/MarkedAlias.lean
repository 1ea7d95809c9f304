import Transact.Proofs.CompiledSource
import Transact.Proofs.DistinctMark

/-!
# A mark around an alias or below it

A marked projection with an alias has the mark around the alias or below it. The two are written
alike, and only a look at the alias tells them apart: a mark around it hides it.

* `MarkedAlias.shape_inside`: the shapes of the two differ only in what depends on aliases.
* `Scope.like_core_inside`: with the same strategy and the same outer columns of a page, the two are
  compiled to the same text.
* `Scope.outerColumns_named`: the outer columns of a page of a join are different when all other
  projections have aliases.
* `Select.sql_inside_iff`: when the SQL of a select is the same with either.
-/

set_option autoImplicit false

namespace Transact

open Text (lower)
open Trace (Like)

/-! ## Projections -/

theorem Expr.map_eq_named {σ τ : Type} {f : σ → τ} {e : Expr σ} {n : String} :
    e.map f = .named n ↔ e = .named n := by
  cases e <;> simp [map, named]

theorem Expr.namesList_append {σ : Type} (es fs : List (Expr σ)) :
    namesList (es ++ fs) = namesList es ++ namesList fs := by
  induction es with
  | nil => rfl
  | cons e es ih => rw [List.cons_append, namesList, namesList, ih, List.append_assoc]

/-- A projection with a mark and an alias, between others. -/
structure MarkedAlias (σ : Type) where
  before : List (Expr σ)
  expr : Expr σ
  name : String
  after : List (Expr σ)

namespace MarkedAlias

variable {σ τ : Type} (m : MarkedAlias σ)

/-- The projections with the mark around the alias. -/
def outside : List (Expr σ) := m.before ++ .distinct (.alias m.expr m.name) :: m.after

/-- The projections with the mark below the alias. -/
def inside : List (Expr σ) := m.before ++ .alias (.distinct m.expr) m.name :: m.after

/-- There are other projections, and all of them have aliases. -/
def OthersNamed : Prop :=
  m.before ++ m.after ≠ [] ∧ ∀ p ∈ m.before ++ m.after, p.alias?.isSome = true

/-- The projections with their subqueries replaced. -/
def map (f : σ → τ) : MarkedAlias τ :=
  ⟨m.before.map (·.map f), m.expr.map f, m.name, m.after.map (·.map f)⟩

theorem outside_map (f : σ → τ) : (m.map f).outside = m.outside.map (·.map f) := by
  simp [outside, map, Expr.map]

theorem inside_map (f : σ → τ) : (m.map f).inside = m.inside.map (·.map f) := by
  simp [inside, map, Expr.map]

theorem othersNamed_map (f : σ → τ) : (m.map f).OthersNamed ↔ m.OthersNamed := by
  have halias : ∀ p : Expr σ, (p.map f).alias? = p.alias? := by
    intro p
    cases p <;> rfl
  simp only [OthersNamed, map, ← List.map_append, ne_eq, List.map_eq_nil_iff, List.forall_mem_map,
    halias]

/-- What does not look at aliases sees the same projections. -/
theorem map_inside {α : Type} {f : Expr σ → α}
    (hf : f (.alias (.distinct m.expr) m.name) = f (.distinct (.alias m.expr m.name))) :
    m.inside.map f = m.outside.map f := by
  simp only [inside, outside, List.map_append, List.map_cons, hf]

theorem bare_inside : m.inside.map Expr.bare = m.outside.map Expr.bare := m.map_inside rfl

theorem aliases_outside :
    m.outside.filterMap Expr.alias? = (m.before ++ m.after).filterMap Expr.alias? := by
  rw [outside, List.filterMap_append, List.filterMap_append]
  rfl

theorem aliases_inside : m.inside.filterMap Expr.alias? =
    m.before.filterMap Expr.alias? ++ m.name :: m.after.filterMap Expr.alias? := by
  rw [inside, List.filterMap_append]
  rfl

theorem exists_aliases_inside (h : m.OthersNamed) :
    ∃ a b names, m.inside.filterMap Expr.alias? = a :: b :: names := by
  obtain ⟨hothers, halias⟩ := h
  rw [aliases_inside]
  cases hbefore : m.before with
  | nil =>
    rw [hbefore, List.nil_append] at hothers halias
    obtain ⟨p, after, hafter⟩ := List.exists_cons_of_ne_nil hothers
    rw [hafter] at halias ⊢
    obtain ⟨b, hb⟩ := Option.isSome_iff_exists.1 (halias p List.mem_cons_self)
    exact ⟨m.name, b, _, by rw [List.filterMap_cons_some hb]; rfl⟩
  | cons p before =>
    rw [hbefore] at halias
    obtain ⟨a, ha⟩ := Option.isSome_iff_exists.1 (halias p List.mem_cons_self)
    obtain ⟨b, names, hrest⟩ := List.exists_cons_of_ne_nil
      (List.append_ne_nil_of_right_ne_nil (before.filterMap Expr.alias?)
        (List.cons_ne_nil m.name (m.after.filterMap Expr.alias?)))
    exact ⟨a, b, names, by rw [List.filterMap_cons_some ha, List.cons_append, hrest]⟩

theorem isMarked_head_inside :
    m.inside.head?.any Expr.isMarked = m.outside.head?.any Expr.isMarked := by
  obtain ⟨before, e, name, after⟩ := m
  cases before <;> rfl

theorem namesList_inside : Expr.namesList m.inside = Expr.namesList m.outside := by
  rw [inside, outside, Expr.namesList_append, Expr.namesList_append]
  rfl

end MarkedAlias

section

variable {σ τ : Type}

/-- The core with other projections. -/
def Core.projecting (c : Core σ) (ps : List (Expr σ)) : Core σ := { c with projections := ps }

/-- The level with other projections in its first core. -/
def SelectBody.projecting (s : SelectBody σ) (ps : List (Expr σ)) : SelectBody σ :=
  { s with cores := s.cores.modifyHead (·.projecting ps) }

/-- The select with other projections in its first core. -/
def Select.projecting (s : Select) (ps : List (Expr Select)) : Select :=
  .of (s.body.projecting ps)

theorem SelectBody.projecting_map (f : σ → τ) (s : SelectBody σ) (ps : List (Expr σ)) :
    (s.projecting ps).map f = (s.map f).projecting (ps.map (·.map f)) := by
  unfold projecting map
  cases s.cores <;> rfl

theorem SelectBody.names_inside (s : SelectBody σ) (m : MarkedAlias σ) :
    (s.projecting m.inside).names = (s.projecting m.outside).names := by
  unfold projecting names
  cases s.cores with
  | nil => rfl
  | cons c cores => simp [Core.names, Core.projecting, m.namesList_inside]

/-! ## Shapes -/

namespace MarkedAlias

variable (m : MarkedAlias σ) (s : SelectBody σ) (c : Core σ)

theorem singleDistinct_outside :
    (c.projecting m.outside).singleDistinct = (m.before ++ m.after).isEmpty := by
  obtain ⟨before, e, name, after⟩ := m
  obtain _ | ⟨p, _ | ⟨q, before⟩⟩ := before <;> cases after <;> rfl

theorem singleDistinct_inside :
    (c.projecting m.inside).singleDistinct = (m.before ++ m.after).isEmpty := by
  obtain ⟨before, e, name, after⟩ := m
  obtain _ | ⟨p, _ | ⟨q, before⟩⟩ := before <;> cases after <;> rfl

theorem keyOnly_outside : (c.projecting m.outside).keyOnly = false := by
  obtain ⟨before, e, name, after⟩ := m
  obtain _ | ⟨p, _ | ⟨q, before⟩⟩ := before <;> cases after <;>
    simp [Core.keyOnly, Core.projecting, outside]

theorem keyOnly_inside : (c.projecting m.inside).keyOnly = false := by
  obtain ⟨before, e, name, after⟩ := m
  obtain _ | ⟨p, _ | ⟨q, before⟩⟩ := before <;> cases after <;>
    simp [Core.keyOnly, Core.projecting, inside]

theorem countOnly_outside : (c.projecting m.outside).countOnly = false := by
  obtain ⟨before, e, name, after⟩ := m
  obtain _ | ⟨p, _ | ⟨q, before⟩⟩ := before <;> cases after <;> rfl

theorem countOnly_inside : (c.projecting m.inside).countOnly = false := by
  obtain ⟨before, e, name, after⟩ := m
  obtain _ | ⟨p, _ | ⟨q, before⟩⟩ := before <;> cases after <;> rfl

variable [BEq σ]

/-- **The shapes** of the two differ only in what depends on aliases. -/
theorem shape_inside : Shape.of s (c.projecting m.inside) =
    { Shape.of s (c.projecting m.outside) with
      allAliased := (Shape.of s (c.projecting m.inside)).allAliased
      foreignOrder := (Shape.of s (c.projecting m.inside)).foreignOrder } := by
  have hcall : (c.projecting m.inside).projections.any Expr.isCall =
      (c.projecting m.outside).projections.any Expr.isCall := by
    simp only [Core.projecting, inside, outside, List.any_append, List.any_cons]
    rfl
  have hmarked : (c.projecting m.inside).projections.head?.any Expr.isMarked =
      (c.projecting m.outside).projections.head?.any Expr.isMarked := m.isMarked_head_inside
  have hwhole : (c.projecting m.inside).wholeTable = (c.projecting m.outside).wholeTable := by
    obtain ⟨before, e, name, after⟩ := m
    obtain _ | ⟨p, _ | ⟨q, before⟩⟩ := before <;> cases after <;> rfl
  simp only [Shape.of, hcall, hmarked, hwhole, m.singleDistinct_inside, m.singleDistinct_outside,
    m.keyOnly_inside, m.keyOnly_outside, m.countOnly_inside, m.countOnly_outside]
  rfl

theorem allAliased_outside : (Shape.of s (c.projecting m.outside)).allAliased = false := by
  simp [Shape.of, Core.projecting, outside, Expr.alias?]

theorem allAliased_inside : (Shape.of s (c.projecting m.inside)).allAliased =
    (m.before ++ m.after).all (·.alias?.isSome) := by
  simp [Shape.of, Core.projecting, inside, Expr.alias?]

theorem isCovered_inside {key : Expr σ} (h : key.normalized ≠ .named (lower m.name)) :
    isCovered m.inside key = isCovered m.outside key := by
  have hwhole : m.inside.filterMap Expr.wildcardTable? =
      m.outside.filterMap Expr.wildcardTable? := by
    rw [inside, outside, List.filterMap_append, List.filterMap_append]
    rfl
  have hprojected : m.inside.map Expr.normalized = m.outside.map Expr.normalized :=
    m.map_inside rfl
  simp only [isCovered, hwhole, hprojected]
  split
  · rfl
  · rename_i n hn
    have hname : n ≠ lower m.name := by
      rintro rfl
      exact h hn
    rw [Bool.eq_iff_iff]
    simp [aliases_inside, aliases_outside, hname]
  · rfl

/-- **The strategies are the same** when no sort key is the alias. -/
theorem strategy_inside (h : ∀ k ∈ s.orders, k.expr.normalized ≠ .named (lower m.name)) :
    (Shape.of s (c.projecting m.inside)).strategy =
      (Shape.of s (c.projecting m.outside)).strategy := by
  have hforeign : (Shape.of s (c.projecting m.inside)).foreignOrder =
      (Shape.of s (c.projecting m.outside)).foreignOrder := by
    rw [Bool.eq_iff_iff]
    simp only [Shape.of, Core.projecting, List.any_eq_true]
    exact exists_congr fun k => and_congr_right fun hk => by rw [m.isCovered_inside (h k hk)]
  rw [m.shape_inside, Shape.strategy, Shape.strategy, hforeign]

/-- The strategies are the same when they reconcile a foreign order with both or neither. -/
theorem strategy_inside_of_iff
    (h : (Shape.of s (c.projecting m.inside)).strategy = .distinctOrder ↔
      (Shape.of s (c.projecting m.outside)).strategy = .distinctOrder) :
    (Shape.of s (c.projecting m.inside)).strategy =
      (Shape.of s (c.projecting m.outside)).strategy := by
  have hcount : (Shape.of s (c.projecting m.outside)).countOnly = false := m.countOnly_outside c
  rw [m.shape_inside, Shape.strategy, Shape.strategy, hcount] at h ⊢
  revert h
  cases (Shape.of s (c.projecting m.outside)).isDistinct <;>
    cases (Shape.of s (c.projecting m.outside)).foreignOrder <;>
    cases (Shape.of s (c.projecting m.inside)).foreignOrder <;>
    cases (Shape.of s (c.projecting m.outside)).hasOffset <;> simp

end MarkedAlias

/-! ## The same text -/

theorem Trace.bind_pure_result {α β : Type} (t : Trace α) (f : α → β) :
    (t >>= fun a => pure (f a)).result = t.result.map f := by
  cases h : t.result with
  | error e =>
    rw [bind_error h]
    rfl
  | ok a =>
    rw [bind_ok h]
    rfl

/-- The text of a column. -/
def Column.querySql (collation : String) (column : Column Query) : String :=
  (column.map (Query.sql collation)).sql collation

theorem Query.sql_columns_congr {collation : String} {b b' : QueryBody Query}
    (lead : List (List (Column Query))) {columns columns' : List (Column Query)}
    (hcolumns : b.columns = lead ++ [columns]) (hb : b' = { b with columns := lead ++ [columns'] })
    (h : columns.map (Column.querySql collation) = columns'.map (Column.querySql collation)) :
    (Query.of b).sql collation = (Query.of b').sql collation := by
  have htexts : ∀ cs : List (Column Query),
      (cs.map (Column.map (Query.sql collation))).map (Column.sql collation) =
        cs.map (Column.querySql collation) := fun cs => List.map_map
  rw [sql_eq_body, sql_eq_body]
  simp only [body, QueryBody.map, QueryBody.sql, hcolumns, hb, List.map_append, List.map_cons,
    htexts, h]

namespace Scope

variable (sc : Scope σ) (collation : String)

/-- Mark and alias are written alike, whichever is around the other. -/
theorem like_expr_inside (e : Expr σ) (name : String) :
    Like (Expr.querySql collation) (sc.expr (.distinct (.alias e name)))
      (sc.expr (.alias (.distinct e) name)) := by
  have htext : ∀ e' : Expr Query, Expr.querySql collation (.distinct (.alias e' name)) =
      Expr.querySql collation (.alias (.distinct e') name) := by
    intro e'
    simp only [Expr.querySql, Expr.map, Expr.sql, String.append_assoc]
  simp only [Like, expr, Expr.mapM, Trace.bind_pure_result]
  cases (e.mapM sc.subquery).result with
  | error err => rfl
  | ok e' => exact congrArg Except.ok (htext e')

theorem like_exprs_inside (before after : List (Expr σ)) (e : Expr σ) (name : String) :
    Like (List.map (Expr.querySql collation))
      (sc.exprs (before ++ .distinct (.alias e name) :: after))
      (sc.exprs (before ++ .alias (.distinct e) name :: after)) := by
  induction before with
  | nil =>
    refine (sc.like_expr_inside collation e name).bind fun _ _ he => ?_
    refine Like.bind_same _ fun _ => .pure ?_
    rw [List.map_cons, List.map_cons, he]
  | cons p before ih =>
    refine Like.bind_same _ fun _ => ih.bind fun _ _ hes => .pure ?_
    rw [List.map_cons, List.map_cons, hes]

theorem like_projections_inside (m : MarkedAlias σ) :
    Like (List.map (Column.querySql collation)) (sc.projections m.outside)
      (sc.projections m.inside) := by
  unfold projections MarkedAlias.outside MarkedAlias.inside
  rw [List.map_append, List.map_append]
  refine (sc.like_exprs_inside collation _ _ m.expr m.name).bind fun _ _ hes => .pure ?_
  rw [List.map_map, List.map_map]
  exact hes

/-- A mark on the first projection goes to the quantifier, wherever it stands. -/
theorem like_projections_marked (m : MarkedAlias σ) :
    Like (List.map (Column.querySql collation))
      (sc.projections (if m.outside.head?.any Expr.isMarked then
        m.outside.modifyHead Expr.unmarked else m.outside))
      (sc.projections (if m.inside.head?.any Expr.isMarked then
        m.inside.modifyHead Expr.unmarked else m.inside)) := by
  obtain ⟨before, e, name, after⟩ := m
  cases before with
  | nil => exact Like.refl _ _
  | cons p before =>
    show Like _ (sc.projections (if p.isMarked then _ else _))
      (sc.projections (if p.isMarked then _ else _))
    split
    · exact sc.like_projections_inside collation ⟨p.unmarked :: before, e, name, after⟩
    · exact sc.like_projections_inside collation ⟨p :: before, e, name, after⟩

end Scope

namespace MarkedAlias

variable [BEq σ] (m : MarkedAlias σ) (s : SelectBody σ) (c : Core σ)

/-- The arrangements of the two are the same, or have the projections as they stand. -/
theorem plainArrangement_inside :
    (Shape.of s (c.projecting m.inside)).plainArrangement s (c.projecting m.inside) =
        (Shape.of s (c.projecting m.outside)).plainArrangement s (c.projecting m.outside) ∨
      (Shape.of s (c.projecting m.outside)).plainArrangement s (c.projecting m.outside) =
          ⟨m.outside, c.groups, s.orders⟩ ∧
        (Shape.of s (c.projecting m.inside)).plainArrangement s (c.projecting m.inside) =
          ⟨m.inside, c.groups, s.orders⟩ := by
  have hgroups : (Shape.of s (c.projecting m.inside)).groupsToLimit =
      (Shape.of s (c.projecting m.outside)).groupsToLimit := by
    rw [m.shape_inside]
    rfl
  have hwhole : (Shape.of s (c.projecting m.inside)).limitsWholeTable =
      (Shape.of s (c.projecting m.outside)).limitsWholeTable := by
    rw [m.shape_inside]
    rfl
  unfold Shape.plainArrangement
  rw [hgroups, hwhole]
  split
  · exact .inl (by simp only [Core.projecting, m.bare_inside])
  · split
    · exact .inl (by simp only [Core.projecting, m.bare_inside])
    · exact .inr ⟨rfl, rfl⟩

theorem denseKeys_inside :
    (Shape.of s (c.projecting m.inside)).denseKeys s (c.projecting m.inside) =
      (Shape.of s (c.projecting m.outside)).denseKeys s (c.projecting m.outside) := by
  rw [m.shape_inside]
  simp only [Shape.denseKeys, Core.projecting, inside, outside, List.foldl_append,
    List.foldl_cons]
  rfl

theorem numberedGroups_inside :
    (Shape.of s (c.projecting m.inside)).numberedGroups s (c.projecting m.inside) =
      (Shape.of s (c.projecting m.outside)).numberedGroups s (c.projecting m.outside) := by
  have hgroups : m.inside.map (fun p => p.bare.unaliased) =
      m.outside.map fun p => p.bare.unaliased := m.map_inside rfl
  rw [m.shape_inside]
  unfold Shape.numberedGroups Shape.numberedProjections
  cases (Shape.of s (c.projecting m.outside)).hasCall with
  | true => simp only [Core.projecting, hgroups, if_true]
  | false => simp only [Core.projecting, m.bare_inside, Bool.false_eq_true, if_false]

end MarkedAlias

namespace Scope

variable (sc : Scope σ) (collation : String) (m : MarkedAlias σ) (s : SelectBody σ) (c : Core σ)

theorem distinctOrder_inside :
    sc.distinctOrder s (c.projecting m.inside) = sc.distinctOrder s (c.projecting m.outside) := by
  have hprojections : (c.projecting m.inside).projections.map Expr.unmarked =
      (c.projecting m.outside).projections.map Expr.unmarked := m.map_inside rfl
  unfold distinctOrder
  rw [hprojections]
  rfl

variable [BEq σ]

theorem like_plain_inside : Like (Query.sql collation)
    (sc.plain (Shape.of s (c.projecting m.outside)) s (c.projecting m.outside))
    (sc.plain (Shape.of s (c.projecting m.inside)) s (c.projecting m.inside)) := by
  refine Like.congr ?_ (plain_result ..) (plain_result ..)
  obtain hsame | ⟨hout, hin⟩ := m.plainArrangement_inside s c
  · rw [hsame]
    exact Like.refl _ _
  · rw [hout, hin]
    refine Like.bind_same _ fun _ => ?_
    refine (sc.like_projections_marked collation m).bind fun _ _ hcolumns => ?_
    refine Like.bind_same _ fun _ => Like.bind_same _ fun _ => .pure ?_
    rw [m.isMarked_head_inside]
    exact Query.sql_columns_congr [] rfl rfl hcolumns

theorem like_paginated_inside
    (houter : sc.outerColumns (Shape.of s (c.projecting m.inside)) (c.projecting m.inside) =
      sc.outerColumns (Shape.of s (c.projecting m.outside)) (c.projecting m.outside)) :
    Like (Query.sql collation)
      (sc.paginated (Shape.of s (c.projecting m.outside)) s (c.projecting m.outside))
      (sc.paginated (Shape.of s (c.projecting m.inside)) s (c.projecting m.inside)) := by
  have hprojections : Like (List.map (Column.querySql collation))
      (sc.projections ((Shape.of s (c.projecting m.outside)).numberedProjections
        (c.projecting m.outside)))
      (sc.projections ((Shape.of s (c.projecting m.inside)).numberedProjections
        (c.projecting m.inside))) := by
    rw [m.shape_inside]
    unfold Shape.numberedProjections
    split
    · exact sc.like_projections_inside collation m
    · simp only [Core.projecting, m.bare_inside]
      exact Like.refl _ _
  have hsingle : (Shape.of s (c.projecting m.inside)).singleDistinct =
      (Shape.of s (c.projecting m.outside)).singleDistinct := by rw [m.shape_inside]
  have hgroups : (Shape.of s (c.projecting m.inside)).hasGroups =
      (Shape.of s (c.projecting m.outside)).hasGroups := rfl
  have hdistinct : (c.projecting m.inside).distinct = (c.projecting m.outside).distinct := rfl
  rw [paginated, paginated, hsingle, hgroups, hdistinct, houter, m.denseKeys_inside,
    m.numberedGroups_inside]
  split
  all_goals
    refine Like.bind_same _ fun _ => Like.bind_same _ fun _ => Like.bind_same _ fun _ => ?_
    refine Like.bind_same _ fun _ => hprojections.bind fun _ _ hcolumns => ?_
    refine Like.bind_same _ fun _ => Like.bind_same _ fun _ => .pure ?_
    exact Query.sql_derived_congr rfl rfl (Query.sql_columns_congr [_] rfl rfl hcolumns)

/-! ## Different pages -/

/-- A mark around the alias hides it, so that all columns are taken of the rows. -/
theorem outerProjections_outside (hothers : m.before ++ m.after ≠ []) :
    sc.outerProjections (Shape.of s (c.projecting m.outside)) (c.projecting m.outside) =
      pure [.allOf sc.names.numbered] := by
  have hsingle : (Shape.of s (c.projecting m.outside)).singleDistinct = false :=
    (m.singleDistinct_outside c).trans (List.isEmpty_eq_false_iff.2 hothers)
  have hkey : (Shape.of s (c.projecting m.outside)).keyOnly = false := m.keyOnly_outside c
  simp only [outerProjections, hsingle, hkey, m.allAliased_outside, Bool.and_false,
    Bool.false_eq_true, if_false]

theorem outerProjections_inside (hothers : m.before ++ m.after ≠ []) :
    sc.outerProjections (Shape.of s (c.projecting m.inside)) (c.projecting m.inside) =
      if c.source.any Source.isJoin && (m.before ++ m.after).all (·.alias?.isSome) then
        pure ((m.inside.filterMap Expr.alias?).map .named)
      else pure [.allOf sc.names.numbered] := by
  have hsingle : (Shape.of s (c.projecting m.inside)).singleDistinct = false :=
    (m.singleDistinct_inside c).trans (List.isEmpty_eq_false_iff.2 hothers)
  have hkey : (Shape.of s (c.projecting m.inside)).keyOnly = false := m.keyOnly_inside c
  simp only [outerProjections, hsingle, hkey, m.allAliased_inside, Bool.false_eq_true, if_false]
  rfl

/-- The outer columns of the two pages are the same, except in a join whose other projections all
have aliases. -/
theorem outerColumns_inside (h : c.source.any Source.isJoin = true → ¬ m.OthersNamed) :
    sc.outerColumns (Shape.of s (c.projecting m.inside)) (c.projecting m.inside) =
      sc.outerColumns (Shape.of s (c.projecting m.outside)) (c.projecting m.outside) := by
  suffices hprojections :
      sc.outerProjections (Shape.of s (c.projecting m.inside)) (c.projecting m.inside) =
        sc.outerProjections (Shape.of s (c.projecting m.outside)) (c.projecting m.outside) by
    rw [outerColumns, outerColumns, hprojections]
  by_cases hothers : m.before ++ m.after = []
  · have hsingle : (Shape.of s (c.projecting m.outside)).singleDistinct = true :=
      (m.singleDistinct_outside c).trans (List.isEmpty_iff.2 hothers)
    have hreferences : (c.projecting m.inside).projections.map
        (sc.outerReference (c.projecting m.inside)) =
          (c.projecting m.outside).projections.map (sc.outerReference (c.projecting m.outside)) :=
      m.map_inside rfl
    rw [m.shape_inside]
    simp only [outerProjections, hsingle, if_true, hreferences]
  · rw [sc.outerProjections_inside m s c hothers, sc.outerProjections_outside m s c hothers,
      if_neg]
    rw [Bool.and_eq_true, List.all_eq_true]
    exact fun hnamed => h hnamed.1 ⟨hothers, hnamed.2⟩

/-- **In such a join** the columns are listed by their aliases, unless the mark hides one. -/
theorem outerColumns_named (hjoin : c.source.any Source.isJoin = true) (hnamed : m.OthersNamed) :
    (sc.outerColumns (Shape.of s (c.projecting m.outside)) (c.projecting m.outside)).result =
        .ok [.allOf sc.names.numbered] ∧
      ∃ a b names,
        (sc.outerColumns (Shape.of s (c.projecting m.inside)) (c.projecting m.inside)).result =
          .ok ((a :: b :: names).map .named) := by
  obtain ⟨hothers, halias⟩ := hnamed
  constructor
  · rw [outerColumns, sc.outerProjections_outside m s c hothers]
    rfl
  · obtain ⟨a, b, names, hnames⟩ := m.exists_aliases_inside ⟨hothers, halias⟩
    refine ⟨a, b, names, ?_⟩
    rw [outerColumns, sc.outerProjections_inside m s c hothers, if_pos, hnames]
    · exact sc.exprs_named _
    · rw [Bool.and_eq_true, List.all_eq_true]
      exact ⟨hjoin, halias⟩

theorem paginated_inside_ne (hjoin : c.source.any Source.isJoin = true) (hnamed : m.OthersNamed)
    {p q : Query}
    (hp : (sc.paginated (Shape.of s (c.projecting m.outside)) s
      (c.projecting m.outside)).result = .ok p)
    (hq : (sc.paginated (Shape.of s (c.projecting m.inside)) s
      (c.projecting m.inside)).result = .ok q) : p.sql collation ≠ q.sql collation := by
  have hsingle : (Shape.of s (c.projecting m.outside)).singleDistinct = false :=
    (m.singleDistinct_outside c).trans (List.isEmpty_eq_false_iff.2 hnamed.1)
  have hsingle' : (Shape.of s (c.projecting m.inside)).singleDistinct = false :=
    (m.singleDistinct_inside c).trans (List.isEmpty_eq_false_iff.2 hnamed.1)
  obtain ⟨top, outer, tail, htop, houter, hp⟩ := sc.paginated_sql s hsingle hp collation
  obtain ⟨top', outer', tail', htop', houter', hq⟩ := sc.paginated_sql s hsingle' hq collation
  obtain ⟨hall, a, b, names, hlisted⟩ := sc.outerColumns_named m s c hjoin hnamed
  obtain rfl : top = top' := Except.ok.inj (htop.symm.trans htop')
  obtain rfl := Except.ok.inj (houter.symm.trans hall)
  obtain rfl := Except.ok.inj (houter'.symm.trans hlisted)
  rw [hp, hq, String.append_assoc, String.append_assoc]
  exact QueryBody.leadText_star_ne collation _ _ a b _ _ _

/-! ## Cores -/

/-- **With the same strategy** the two are compiled to the same text, apart from pages of a join
whose other projections all have aliases. -/
theorem like_core_inside
    (hstrategy : (Shape.of s (c.projecting m.inside)).strategy =
      (Shape.of s (c.projecting m.outside)).strategy)
    (hpage : (Shape.of s (c.projecting m.outside)).strategy = .paginated →
      c.source.any Source.isJoin = true → ¬ m.OthersNamed) :
    Like (Query.sql collation) (sc.core s (c.projecting m.outside))
      (sc.core s (c.projecting m.inside)) := by
  have hshape : ∀ ps, Shape.of s
      (Core.projecting { c with source := c.source.map fun s => s.correlated.1 } ps) =
        Shape.of s (c.projecting ps) := fun ps => Shape.of_correlated s (c.projecting ps)
  refine Like.congr ?_ (core_result sc s _) (core_result sc s _)
  rw [hstrategy]
  cases hs : (Shape.of s (c.projecting m.outside)).strategy with
  | count => exact absurd hs (Shape.strategy_ne_count (m.countOnly_outside c))
  | distinctOrder =>
    show Like _ (sc.distinctOrder s _) (sc.distinctOrder s _)
    rw [distinctOrder_inside]
    exact Like.refl _ _
  | paginated =>
    have hjoin := congrArg Shape.hasJoin (hshape m.outside)
    have hlike := sc.like_paginated_inside collation m s
      { c with source := c.source.map fun s => s.correlated.1 }
      (sc.outerColumns_inside m s _ fun h => hpage hs (hjoin.symm.trans h))
    rw [hshape, hshape] at hlike
    exact hlike.congr (Core.correlated_bind_result _ _) (Core.correlated_bind_result _ _)
  | plain =>
    have hlike := sc.like_plain_inside collation m s
      { c with source := c.source.map fun s => s.correlated.1 }
    rw [hshape, hshape] at hlike
    exact hlike.congr (Core.correlated_bind_result _ _) (Core.correlated_bind_result _ _)

/-- **Otherwise** the texts are different. -/
theorem core_inside_ne
    (hother : (Shape.of s (c.projecting m.inside)).strategy =
        (Shape.of s (c.projecting m.outside)).strategy →
      (Shape.of s (c.projecting m.outside)).strategy = .paginated ∧
        c.source.any Source.isJoin = true ∧ m.OthersNamed) {p q : Query}
    (hp : (sc.core s (c.projecting m.outside)).result = .ok p)
    (hq : (sc.core s (c.projecting m.inside)).result = .ok q) :
    p.sql collation ≠ q.sql collation := by
  by_cases hstrategy : (Shape.of s (c.projecting m.inside)).strategy =
      (Shape.of s (c.projecting m.outside)).strategy
  · obtain ⟨hpaginated, hjoin, hnamed⟩ := hother hstrategy
    have hjoined := congrArg Shape.hasJoin (Shape.of_correlated s (c.projecting m.outside))
    have hp := core_eq_ok hp
    have hq := core_eq_ok hq
    rw [hpaginated, ← Shape.of_correlated] at hp
    rw [hstrategy, hpaginated, ← Shape.of_correlated] at hq
    exact sc.paginated_inside_ne collation m s
      { c with source := c.source.map fun s => s.correlated.1 } (hjoined.trans hjoin) hnamed hp hq
  · -- only an order can be foreign, so there is one, and its direction ends one of the texts
    have horders : s.orders ≠ [] := by
      intro hnil
      refine hstrategy (m.strategy_inside s c ?_)
      simp [hnil]
    intro htexts
    have hlast := sc.getLast?_sql_core s (m.countOnly_outside c) horders hp collation
    rw [htexts, sc.getLast?_sql_core s (m.countOnly_inside c) horders hq collation] at hlast
    refine hstrategy (m.strategy_inside_of_iff s c ?_)
    split at hlast <;> split at hlast <;> simp_all

end Scope

/-! ## Levels -/

namespace SelectBody

variable {options : Options} {subquery : σ → Trace Query} (m : MarkedAlias σ) (s : SelectBody σ)

/-- The rows of the level are those of a join. -/
def joins : Bool := s.cores.head?.any fun c => c.source.any Source.isJoin

theorem scope_projecting {ps : List (Expr σ)} (hps : ps ∈ [m.outside, m.inside]) :
    (s.projecting ps).scope options subquery =
      (s.projecting m.outside).scope options subquery := by
  rcases List.mem_pair.1 hps with rfl | rfl
  · rfl
  · rw [scope, names_inside, scope]

variable [BEq σ]

/-- **The two levels** have no strategy and fail alike, or have their first cores compiled in one
scope. -/
theorem projecting_cases (options : Options) (subquery : σ → Trace Query) :
    ((s.projecting m.outside).strategy? options subquery = none ∧
      (s.projecting m.inside).strategy? options subquery = none ∧
      ((s.projecting m.outside).compile options subquery).result =
        ((s.projecting m.inside).compile options subquery).result) ∨
    ∃ (sc : Scope σ) (s' : SelectBody σ) (c : Core σ),
      s'.orders ⊆ s.orders ∧ s.joins = c.source.any Source.isJoin ∧
      ∀ ps ∈ [m.outside, m.inside],
        (s.projecting ps).strategy? options subquery =
          some (Shape.of s' (c.projecting ps)).strategy ∧
        ((s.projecting ps).compile options subquery).result =
          (sc.core s' (c.projecting ps)).result := by
  cases hc : s.cores with
  | nil =>
    have hnil : ∀ ps, s.projecting ps = s := by
      intro ps
      rw [projecting, hc, List.modifyHead_nil, ← hc]
    left
    rw [hnil, hnil, strategy?, hc]
    exact ⟨rfl, rfl, rfl⟩
  | cons c cores =>
    have hcores : ∀ ps, (s.projecting ps).cores = c.projecting ps :: cores := by
      intro ps
      rw [projecting, hc]
      rfl
    have hscope : ∀ ps ∈ [m.outside, m.inside],
        ((s.projecting ps).scope options subquery).distinctKeys (s.projecting ps).orders =
          ((s.projecting m.outside).scope options subquery).distinctKeys s.orders := by
      intro ps hps
      rw [s.scope_projecting m hps]
      rfl
    cases horders : (((s.projecting m.outside).scope options subquery).distinctKeys
        s.orders).result with
    | error e =>
      have hfails : ∀ ps ∈ [m.outside, m.inside],
          (s.projecting ps).strategy? options subquery = none ∧
            ((s.projecting ps).compile options subquery).result = .error e := by
        intro ps hps
        rw [strategy?, compile_result, hcores, hscope ps hps, horders, Trace.bind_error horders]
        exact ⟨rfl, rfl⟩
      obtain ⟨hout, hout'⟩ := hfails m.outside (by simp)
      obtain ⟨hin, hin'⟩ := hfails m.inside (by simp)
      exact .inl ⟨hout, hin, hout'.trans hin'.symm⟩
    | ok orders =>
      refine .inr ⟨(s.projecting m.outside).scope options subquery, { s with orders := orders }, c,
        Scope.distinctKeys_subset _ horders, by rw [joins, hc]; rfl, fun ps hps => ?_⟩
      rw [strategy?, compile_result, hcores, hscope ps hps, horders, Trace.bind_ok horders,
        s.scope_projecting m hps]
      exact ⟨rfl, rfl⟩

variable {s}

/-- **The strategies are the same** when no sort key is the alias. -/
theorem strategy?_inside (h : ∀ k ∈ s.orders, k.expr.normalized ≠ .named (lower m.name)) :
    (s.projecting m.inside).strategy? options subquery =
      (s.projecting m.outside).strategy? options subquery := by
  obtain ⟨hout, hin, -⟩ | ⟨sc, s', c, horders, -, hcore⟩ :=
    s.projecting_cases m options subquery
  · rw [hout, hin]
  · rw [(hcore _ (by simp)).1, (hcore _ (by simp)).1,
      m.strategy_inside s' c fun k hk => h k (horders hk)]

/-- **Levels** with the same strategy have the same text, apart from pages of a join whose other
projections all have aliases. -/
theorem like_compile_inside (collation : String)
    (hstrategy : (s.projecting m.inside).strategy? options subquery =
      (s.projecting m.outside).strategy? options subquery)
    (hpage : (s.projecting m.outside).strategy? options subquery = some .paginated →
      s.joins = true → ¬ m.OthersNamed) :
    Like (Query.sql collation) ((s.projecting m.outside).compile options subquery)
      ((s.projecting m.inside).compile options subquery) := by
  obtain ⟨-, -, hfail⟩ | ⟨sc, s', c, -, hjoins, hcore⟩ :=
    s.projecting_cases m options subquery
  · rw [Like, hfail]
  · obtain ⟨hout, hout'⟩ := hcore m.outside (by simp)
    obtain ⟨hin, hin'⟩ := hcore m.inside (by simp)
    rw [hout, hin] at hstrategy
    rw [hout, hjoins] at hpage
    exact (sc.like_core_inside collation m s' c (Option.some.inj hstrategy)
      fun hs => hpage (congrArg some hs)).congr hout' hin'

/-- **Other levels** have different texts. -/
theorem compile_inside_ne (collation : String)
    (hother : (s.projecting m.inside).strategy? options subquery =
        (s.projecting m.outside).strategy? options subquery →
      (s.projecting m.outside).strategy? options subquery = some .paginated ∧ s.joins = true ∧
        m.OthersNamed) {p q : Query}
    (hp : ((s.projecting m.outside).compile options subquery).result = .ok p)
    (hq : ((s.projecting m.inside).compile options subquery).result = .ok q) :
    p.sql collation ≠ q.sql collation := by
  obtain ⟨hout, hin, -⟩ | ⟨sc, s', c, -, hjoins, hcore⟩ :=
    s.projecting_cases m options subquery
  · rw [hout, hin] at hother
    cases (hother rfl).1
  · obtain ⟨hout, hout'⟩ := hcore m.outside (by simp)
    obtain ⟨hin, hin'⟩ := hcore m.inside (by simp)
    rw [hout, hin, hjoins] at hother
    refine sc.core_inside_ne collation m s' c (fun hs => ?_) (hout'.symm.trans hp)
      (hin'.symm.trans hq)
    obtain ⟨hpaginated, hnamed⟩ := hother (congrArg some hs)
    exact ⟨Option.some.inj hpaginated, hnamed⟩

end SelectBody

end

/-! ## Selects -/

namespace Select

variable (options : Options) (s : Select)

theorem level_projecting (ps : List (Expr Select)) : (s.projecting ps).level options =
    (s.level options).projecting (ps.map (·.map (compiled options))) :=
  s.body.projecting_map (compiled options) ps

theorem joins_level : (s.level options).joins = s.body.joins := by
  unfold level SelectBody.joins SelectBody.map
  rw [List.head?_map]
  cases s.body.cores.head? with
  | none => rfl
  | some c => simp [Core.map, Option.any_map, Source.isJoin_map]

variable {options s} in
/-- Selects that have the same text or none: either they are compiled alike, or both fail. -/
theorem sql_eq_iff {s' : Select} {p : Prop}
    (hlike : p → Like (Query.sql options.collation) (s.compile options) (s'.compile options))
    (hne : ¬ p → ∀ q q', (s.compile options).result = .ok q → (s'.compile options).result = .ok q' →
      q.sql options.collation ≠ q'.sql options.collation) :
    Statement.sql options (.select s) = Statement.sql options (.select s') ↔
      p ∨ ∀ text, Statement.sql options (.select s) ≠ .ok text ∧
        Statement.sql options (.select s') ≠ .ok text := by
  constructor
  · intro hsame
    by_cases hp : p
    · exact .inl hp
    · have hnone : ∀ text, Statement.sql options (.select s) ≠ .ok text := by
        intro text htext
        rw [htext, eq_comm, sql_result, Except.map_eq_ok_iff] at hsame
        rw [sql_result, Except.map_eq_ok_iff] at htext
        obtain ⟨q, hq, hqtext⟩ := htext
        obtain ⟨q', hq', hqtext'⟩ := hsame
        exact hne hp q q' hq hq' (hqtext.trans hqtext'.symm)
      exact .inr fun text => ⟨hnone text, hsame ▸ hnone text⟩
  · rintro (hp | hfails)
    · exact like_compile_iff.1 (hlike hp)
    · rw [sql_eq_error fun text => (hfails text).1, sql_eq_error fun text => (hfails text).2]

/-- **Mark and alias** can stand in either order in a select that is compiled by the same strategy
with both, except in pages of a join whose other projections all have aliases. Other selects have
different SQL with the two, unless they fail with both. The strategies are the same if no sort key
is the alias. -/
theorem sql_inside_iff (m : MarkedAlias Select) :
    ((∀ k ∈ s.body.orders, k.expr.normalized ≠ .named (lower m.name)) →
      (s.projecting m.inside).strategy? options = (s.projecting m.outside).strategy? options) ∧
    (Statement.sql options (.select (s.projecting m.outside)) =
        Statement.sql options (.select (s.projecting m.inside)) ↔
      ((s.projecting m.inside).strategy? options = (s.projecting m.outside).strategy? options ∧
          ¬ ((s.projecting m.outside).strategy? options = some .paginated ∧
            s.body.joins = true ∧ m.OthersNamed)) ∨
        ∀ text, Statement.sql options (.select (s.projecting m.outside)) ≠ .ok text ∧
          Statement.sql options (.select (s.projecting m.inside)) ≠ .ok text) := by
  rw [strategy?, strategy?, level_projecting, level_projecting, ← m.outside_map, ← m.inside_map,
    ← m.othersNamed_map (compiled options), ← joins_level options]
  refine ⟨fun horders => ?_, sql_eq_iff (fun hsame => ?_) fun hother q q' hq hq' => ?_⟩
  · refine SelectBody.strategy?_inside (m.map (compiled options)) fun k hk => ?_
    obtain ⟨k, hmem, rfl⟩ := List.mem_map.1 hk
    rw [SortKey.map, Expr.normalized_map, ne_eq, Expr.map_eq_named]
    exact horders k hmem
  · rw [compile_eq, compile_eq, level_projecting, level_projecting, ← m.outside_map,
      ← m.inside_map]
    exact SelectBody.like_compile_inside _ _ hsame.1 fun hpage hjoin hnamed =>
      hsame.2 ⟨hpage, hjoin, hnamed⟩
  · rw [compile_eq, level_projecting, ← m.outside_map] at hq
    rw [compile_eq, level_projecting, ← m.inside_map] at hq'
    refine SelectBody.compile_inside_ne _ _ (fun hstrategy => ?_) hq hq'
    exact by_contra fun hpage => hother ⟨hstrategy, hpage⟩

/-- The rows of a table in an order. -/
def tableInOrder (key : Expr Select) : Select :=
  .of
    { cores := [{ projections := [], source := some (.table { name := "t" }) }]
      orders := [key.asc] }

/-- A page of people and their pets. -/
def petsPage : Select :=
  .of
    { cores :=
        [{ projections := []
           source := some (.join .inner (.table { name := "people" }) (.table { name := "pets" })
             (some (.binary (.qualified "people" "id") .eq (.qualified "pets" "owner")))) }]
      offset := some (.int 1) }

/-- Two columns, the first of them marked and with an alias. -/
def markedColumns : MarkedAlias Select := ⟨[], .named "a", "n", [.named "b"]⟩

/-- Owners and pets, the owners marked. -/
def markedOwners : MarkedAlias Select :=
  ⟨[], .qualified "people" "name", "owner", [.alias (.qualified "pets" "name") "pet"]⟩

theorem sql_inside_iff_markedColumns :
    (∀ k ∈ (tableInOrder (.named "B")).body.orders, k.expr.normalized ≠ .named (lower "n")) ∧
      Statement.sql {} (.select ((tableInOrder (.named "B")).projecting markedColumns.outside)) =
        Statement.sql {}
          (.select ((tableInOrder (.named "B")).projecting markedColumns.inside)) := by
  have horders : ∀ k ∈ (tableInOrder (.named "B")).body.orders,
      k.expr.normalized ≠ .named (lower "n") := by
    intro k hk h
    rw [List.mem_singleton.1 hk] at h
    exact absurd (congrArg ColumnRef.name (Expr.column.inj h)) (by decide +kernel)
  obtain ⟨hstrategy, hsame⟩ := sql_inside_iff {} (tableInOrder (.named "B")) markedColumns
  refine ⟨horders, hsame.2 (.inl ⟨hstrategy horders, fun hpage => ?_⟩)⟩
  exact absurd hpage.1 (by decide +kernel)

/-- **An order by the alias** is foreign with the mark around it, and a page of a join does not list
its columns. -/
theorem sql_inside_ne :
    (Statement.sql {} (.select ((tableInOrder (.named "n")).projecting markedColumns.outside)) =
        .ok ("SELECT DISTINCT [n], [b], [__order] FROM (SELECT [a] AS [n], [b], " ++
          "DENSE_RANK() OVER (ORDER BY [n] ASC) AS [__order], ROW_NUMBER() OVER (PARTITION BY " ++
          "[a], [b] ORDER BY [n] ASC) AS [__joined_row_num] FROM [t]) AS [__sq] " ++
          "WHERE [__joined_row_num] = 1 ORDER BY [__order]") ∧
      Statement.sql {} (.select ((tableInOrder (.named "n")).projecting markedColumns.inside)) =
        .ok "SELECT DISTINCT [a] AS [n], [b] FROM [t] ORDER BY [n] ASC") ∧
    (Statement.sql {} (.select (petsPage.projecting markedOwners.outside)) =
        .ok ("SELECT [__rnt].* FROM (SELECT ROW_NUMBER() OVER (ORDER BY (SELECT NULL) ASC) AS " ++
          "[__rn], [people].[name] AS [owner], [pets].[name] AS [pet] FROM [people] " ++
          "INNER JOIN [pets] ON [people].[id] = [pets].[owner]) AS [__rnt] " ++
          "WHERE [__rnt].[__rn] > (1) ORDER BY [__rnt].[__rn] ASC") ∧
      Statement.sql {} (.select (petsPage.projecting markedOwners.inside)) =
        .ok ("SELECT [owner], [pet] FROM (SELECT ROW_NUMBER() OVER (ORDER BY (SELECT NULL) ASC) " ++
          "AS [__rn], [people].[name] AS [owner], [pets].[name] AS [pet] FROM [people] " ++
          "INNER JOIN [pets] ON [people].[id] = [pets].[owner]) AS [__rnt] " ++
          "WHERE [__rnt].[__rn] > (1) ORDER BY [__rnt].[__rn] ASC")) := by
  decide +kernel

end Select

end Transact
