import Transact.Proofs.PageColumns
import Transact.Proofs.Query
import Transact.Proofs.SelectList

/-!
# What a derived table exports

A query around a derived table can refer only to the columns that the list of the derived table
exports, unqualified or by the name of the derived table. `Query.ListReaches` says so for the list
of one query, `Query.ListsReach` for all derived tables below it as well.

* `Scope.listsReach_paginated_iff`: the list around the numbered rows is in scope unless a single
  marked expression without an alias refers to what is not exported, or to another table than the
  first one.
* `Scope.listsReach_distinctOrder_iff`: the list around the ranked rows is in scope unless an
  expression without a name has a qualified column in it, or one that is not exported.
* `Select.listsReach_iff`: both for selects.
-/

set_option autoImplicit false

namespace Transact

open Text (lower)

/-! ## Exported columns -/

section

variable {σ τ : Type}

/-- The item gives a column of this name, or may give it as a wildcard. -/
def Expr.Exports (e : Expr σ) (n : String) : Prop :=
  e.wildcard?.isSome = true ∨ ∃ m ∈ e.columnName?, lower m = lower n

/-- The column has this name, or may have it as a wildcard. -/
def Column.Exports : Column σ → String → Prop
  | .expr e, n => e.Exports n
  | .ranked _ name, n => lower name = lower n

theorem Expr.exports_map (f : σ → τ) (e : Expr σ) (n : String) :
    (e.map f).Exports n ↔ e.Exports n := by
  rw [Exports, Exports, columnName?_map, wildcard?_map]

theorem Expr.exports_of_columnName? {e : Expr σ} {n : String} (h : e.columnName? = some n) :
    e.Exports n := .inr ⟨n, h, rfl⟩

end

/-- The list of the query has a column of this name, or may have it through a wildcard. -/
def Query.Exports (q : Query) (n : String) : Prop :=
  ∃ column ∈ q.body.columns.flatten, column.Exports n

/-- The reference is to a column of the derived table `r` under the name `name`. -/
structure ColumnRef.Reaches (ref : ColumnRef) (r : Query) (name : String) : Prop where
  qualifier : ∀ t ∈ ref.table, t = name
  column : r.Exports ref.name

namespace Query

/-- If the query draws on a derived table, all references in its list are to columns of that. -/
def ListReaches (q : Query) : Prop :=
  ∀ r name, q.body.rows = some (.derived r name) →
    ∀ column ∈ q.body.columns.flatten, ∀ e ∈ column.exprs, ∀ ref ∈ e.columnRefs,
      ref.Reaches r name

/-- The query `r` is `q` or a derived table below it. -/
def Draws (q r : Query) : Prop :=
  Relation.ReflTransGen (fun q r => ∃ name, q.body.rows = some (.derived r name)) q r

/-- All lists around derived tables refer to the columns of these. -/
def ListsReach (q : Query) : Prop := ∀ r, q.Draws r → r.ListReaches

section

variable {P : Query → Prop} {q r : Query} {name : String}

theorem forall_draws_of_not_derived (h : ∀ r name, q.body.rows ≠ some (.derived r name)) :
    (∀ r, q.Draws r → P r) ↔ P q := by
  refine ⟨fun hall => hall q .refl, fun hq r hr => ?_⟩
  rcases Relation.ReflTransGen.cases_head hr with rfl | ⟨r', ⟨name, hrows⟩, -⟩
  · exact hq
  · exact absurd hrows (h r' name)

theorem forall_draws_of_derived (h : q.body.rows = some (.derived r name)) :
    (∀ r', q.Draws r' → P r') ↔ P q ∧ ∀ r', r.Draws r' → P r' := by
  constructor
  · intro hall
    exact ⟨hall q .refl, fun r' hr' => hall r' (.head ⟨name, h⟩ hr')⟩
  · rintro ⟨hq, hr⟩ r' hr'
    rcases Relation.ReflTransGen.cases_head hr' with rfl | ⟨r'', ⟨name', hrows⟩, hr'⟩
    · exact hq
    · rw [h] at hrows
      cases hrows
      exact hr r' hr'

end

theorem listsReach_of_not_derived {q : Query}
    (h : ∀ r name, q.body.rows ≠ some (.derived r name)) : q.ListsReach :=
  (forall_draws_of_not_derived h).2 fun r name hrows => absurd hrows (h r name)

theorem listsReach_iff_of_derived {q r : Query} {name : String}
    (h : q.body.rows = some (.derived r name)) :
    q.ListsReach ↔ q.ListReaches ∧ r.ListsReach := forall_draws_of_derived h

theorem listReaches_iff_of_derived {q r : Query} {name : String}
    (h : q.body.rows = some (.derived r name)) :
    q.ListReaches ↔ ∀ column ∈ q.body.columns.flatten, ∀ e ∈ column.exprs,
      ∀ ref ∈ e.columnRefs, ref.Reaches r name := by
  constructor
  · exact fun hq => hq r name h
  · intro hq r' name' h'
    rw [h] at h'
    cases h'
    exact hq

end Query

/-! ## Compiled lists -/

namespace Scope

variable {σ : Type} {sc : Scope σ} {n : String}

theorem exports_expr_iff {e : Expr σ} {e' : Expr Query} (h : (sc.expr e).result = .ok e') :
    e'.Exports n ↔ e.Exports n := by
  rw [Expr.Exports, Expr.Exports, columnName?_expr h, wildcard?_expr h]

theorem exports_exprs_iff {es : List (Expr σ)} {es' : List (Expr Query)}
    (h : (sc.exprs es).result = .ok es') :
    (∃ e ∈ es', e.Exports n) ↔ ∃ e ∈ es, e.Exports n := by
  constructor
  · rintro ⟨e', he', hexports⟩
    obtain ⟨e, he, hexpr⟩ := exists_of_mem_right h he'
    exact ⟨e, he, (exports_expr_iff hexpr).1 hexports⟩
  · rintro ⟨e, he, hexports⟩
    obtain ⟨e', he', hexpr⟩ := exists_of_mem_left h he
    exact ⟨e', he', (exports_expr_iff hexpr).2 hexports⟩

theorem refs_exprs_iff {P : ColumnRef → Prop} {es : List (Expr σ)} {es' : List (Expr Query)}
    (h : (sc.exprs es).result = .ok es') :
    (∀ e ∈ es', ∀ ref ∈ e.columnRefs, P ref) ↔ ∀ e ∈ es, ∀ ref ∈ e.columnRefs, P ref := by
  constructor
  · intro hall e he ref href
    obtain ⟨e', he', hexpr⟩ := exists_of_mem_left h he
    exact hall e' he' ref (by rwa [columnRefs_expr hexpr])
  · intro hall e' he' ref href
    obtain ⟨e, he, hexpr⟩ := exists_of_mem_right h he'
    exact hall e he ref (by rwa [← columnRefs_expr hexpr])

/-- A column other than a constant is exported by the same projections. -/
theorem exports_projections_iff {ps : List (Expr σ)} {columns : List (Column Query)}
    (h : (sc.projections ps).result = .ok columns) (hone : lower sc.names.one ≠ lower n) :
    (∃ column ∈ columns, column.Exports n) ↔ ∃ p ∈ ps, p.Exports n := by
  have hitem : ∀ p : Expr σ,
      (if p.isLiteralOne then .alias p sc.names.one else p : Expr σ).Exports n ↔ p.Exports n := by
    intro p
    split
    · rename_i hp
      obtain ⟨hname, hwildcard⟩ := Expr.unnamed_of_isLiteralOne hp
      simp [Expr.Exports, Expr.wildcard?, Expr.columnName?, hone, hname, hwildcard]
    · rfl
  obtain ⟨es, hes, rfl⟩ := projections_eq_ok.1 h
  simp only [List.mem_map, exists_exists_and_eq_and]
  refine (exports_exprs_iff hes).trans ?_
  simp only [List.mem_map, exists_exists_and_eq_and, hitem]

end Scope

/-! ## Pages -/

section

variable {σ : Type}

/-- A single marked projection without an alias, which the outer query of a page repeats, has only
columns of the first table in it, or unqualified ones, and all of them are exported. -/
def Core.PageRefers (c : Core σ) : Prop :=
  ∀ p, c.projections = [p] → p.isMarked = true → p.unmarked.alias? = none →
    ∀ ref ∈ p.columnRefs,
      (∀ t ∈ ref.table, t = (c.baseTable?.map TableRef.qualifier).getD "") ∧
        p.bare.Exports ref.name

/-- The names of the compiler are not used by the projections, in letters of either case. -/
def Scope.Spares (sc : Scope σ) (c : Core σ) : Prop :=
  ∀ n ∈ sc.names.toList, ∀ p ∈ c.projections, ∀ u ∈ p.names, lower n ≠ lower u

variable {sc : Scope σ} {s : SelectBody σ} {c : Core σ} {q : Query}

/-- A named projection is among those of the numbered rows under its name. -/
theorem Core.exists_mem_pageList {p : Expr σ} {n : String} (hp : p ∈ c.projections)
    (hn : p.columnName? = some n) : ∃ p' ∈ c.pageList, p'.Exports n := by
  rw [pageList]
  split
  · exact ⟨p, hp, Expr.exports_of_columnName? hn⟩
  · exact ⟨p.bare, List.mem_map_of_mem hp, Expr.exports_of_columnName? (Expr.columnName?_bare hn)⟩

theorem Core.pageList_of_marked {p : Expr σ} (hp : c.projections = [p])
    (hmarked : p.isMarked = true) : c.pageList = [p.bare] := by
  simp [pageList, hp, Expr.isCall_of_isMarked hmarked]

theorem Core.pageRefers_of_not_single (h : c.singleDistinct = false) : c.PageRefers := by
  intro p hp hmarked
  rw [Core.singleDistinct_iff.2 ⟨p, hp, hmarked⟩] at h
  cases h

/-- A redirected reference is in scope when it was to the table that it is redirected from. -/
theorem ColumnRef.reaches_requalify_iff {ref : ColumnRef} {r : Query} {source target : String}
    (htarget : ∀ t ∈ ref.table, t ≠ target) :
    ((Renaming.requalify source target).column ref).Reaches r target ↔
      (∀ t ∈ ref.table, t = source) ∧ r.Exports ref.name := by
  simp only [Renaming.requalify]
  split
  · rename_i hsource
    simp only [hsource, Option.mem_def, Option.some.injEq, forall_eq', true_and]
    exact ⟨fun h => h.column, fun h => ⟨by simp, h⟩⟩
  · rename_i hsource
    have hnone : (∀ t ∈ ref.table, t = source) → ref.table = none := by
      intro h
      cases htable : ref.table with
      | none => rfl
      | some t => exact absurd (htable.trans (congrArg some (h t htable))) hsource
    constructor
    · intro h
      exact ⟨fun t ht => absurd (h.qualifier t ht) (htarget t ht), h.column⟩
    · rintro ⟨hall, hcolumn⟩
      exact ⟨by simp [hnone hall], hcolumn⟩

variable [BEq σ] {outer : List (Expr Query)} {page : Query}

/-- Outside of single marked projections the outer list is in scope. -/
theorem Scope.outer_reaches (hsingle : c.singleDistinct = false)
    (houter : (sc.outerColumns (Shape.of s c) c).result = .ok outer)
    (hexports : ∀ p ∈ c.projections, ∀ n ∈ p.columnName?, page.Exports n) :
    ∀ e ∈ outer, ∀ ref ∈ e.columnRefs, ref.Reaches page sc.names.numbered := by
  intro e he ref href
  rcases outer_cases hsingle houter with ⟨-, -, rfl⟩ | ⟨-, -, column, hps, rfl⟩ | ⟨-, -, rfl⟩
  · obtain ⟨n, hn, rfl⟩ := List.mem_map.1 he
    obtain ⟨p, hp, hn⟩ := List.mem_filterMap.1 hn
    obtain ⟨e', rfl⟩ := Expr.alias?_eq_some.1 hn
    obtain rfl := List.mem_singleton.1 href
    exact ⟨by simp, hexports _ hp n rfl⟩
  · obtain rfl := List.mem_singleton.1 he
    obtain rfl := List.mem_singleton.1 href
    exact ⟨by simp, hexports (.column column) (by simp [hps]) column.name rfl⟩
  · obtain rfl := List.mem_singleton.1 he
    cases href

/-- The outer list of a single marked projection repeats it, or refers to its alias. -/
theorem Scope.outer_reaches_iff {p : Expr σ} (hps : c.projections = [p])
    (hmarked : p.isMarked = true) (hspares : sc.Spares c)
    (houter : (sc.outerColumns (Shape.of s c) c).result = .ok outer)
    (hexports : ∀ n ∈ p.names, (page.Exports n ↔ p.bare.Exports n)) :
    (∀ e ∈ outer, ∀ ref ∈ e.columnRefs, ref.Reaches page sc.names.numbered) ↔ c.PageRefers := by
  obtain ⟨ps, hps', houter⟩ := Trace.bind_eq_ok.1 houter
  have hsingle : (Shape.of s c).singleDistinct = true := Core.singleDistinct_iff.2 ⟨p, hps, hmarked⟩
  rw [outerProjections, if_pos hsingle, hps] at hps'
  obtain rfl := Except.ok.inj hps'
  rw [refs_exprs_iff houter]
  simp only [List.map_cons, List.map_nil, List.mem_singleton, forall_eq, outerReference]
  cases halias : p.unmarked.alias? with
  | some name =>
    have hname := Expr.columnName?_of_alias? halias
    refine iff_of_true (fun ref href => ?_) (fun p' hp' _ hnone => ?_)
    · obtain rfl := List.mem_singleton.1 href
      exact ⟨by simp, (hexports name (Expr.mem_names_of_columnName? hname)).2
        (Expr.exports_of_columnName? (Expr.columnName?_bare hname))⟩
    · rw [hps] at hp'
      obtain rfl := List.singleton_inj.1 hp'
      rw [halias] at hnone
      cases hnone
  | none =>
    have href_iff : ∀ ref ∈ p.columnRefs,
        (((Renaming.requalify ((c.baseTable?.map TableRef.qualifier).getD "")
          sc.names.numbered).column ref).Reaches page sc.names.numbered ↔
          (∀ t ∈ ref.table, t = (c.baseTable?.map TableRef.qualifier).getD "") ∧
            p.bare.Exports ref.name) := by
      intro ref href
      obtain ⟨hname, htable⟩ := Expr.mem_names_of_columnRefs href
      rw [ColumnRef.reaches_requalify_iff, hexports _ hname]
      intro t ht heq
      exact hspares sc.names.numbered (by simp [SyntheticNames.toList]) p (by simp [hps]) t
        (htable t ht) (by rw [heq])
    simp only [Expr.requalify, Expr.columnRefs_rename, Expr.columnRefs_unmarked, List.mem_map,
      forall_exists_index, and_imp, forall_apply_eq_imp_iff₂]
    constructor
    · intro hall p' hp' _ _ ref href
      rw [hps] at hp'
      obtain rfl := List.singleton_inj.1 hp'
      exact (href_iff ref href).1 (hall ref href)
    · intro hrefers ref href
      exact (href_iff ref href).2 (hrefers p hps hmarked halias ref href)

/-- **The list around the numbered rows** is in scope exactly when a single marked projection refers
to exported columns. -/
theorem Scope.listsReach_paginated_iff (hspares : sc.Spares c)
    (h : (sc.paginated (Shape.of s c) s c).result = .ok q) : q.ListsReach ↔ c.PageRefers := by
  obtain ⟨keys, top, offset, outer, ranking, window, columns, frame, -, -, houter, -, hcolumns,
    hframe, -, rfl⟩ := paginated_builds h
  obtain ⟨rows, filters, groups, having, hrows, -, -, -, rfl⟩ := frame_eq_ok.1 hframe
  let page : Query := .of
    { distinct := c.distinct
      columns := [[.ranked window sc.names.rowNumber], columns]
      rows := rows
      filters := filters
      groups := groups
      having := having }
  have hpage : page.ListsReach := Query.listsReach_of_not_derived (rows_ne_derived hrows)
  have hexports : ∀ p ∈ c.projections, ∀ n ∈ p.names,
      (page.Exports n ↔ ∃ p ∈ c.pageList, p.Exports n) := by
    intro p hp n hn
    have hnumber := hspares sc.names.rowNumber (by simp [SyntheticNames.toList]) p hp n hn
    have hone := hspares sc.names.one (by simp [SyntheticNames.toList]) p hp n hn
    have hlist : (∃ column ∈ columns, column.Exports n) ↔ ∃ p ∈ c.pageList, p.Exports n :=
      exports_projections_iff hcolumns hone
    rw [← hlist]
    simp [page, Query.Exports, Query.body, Column.Exports, hnumber]
  have houter_iff : (∀ e ∈ outer, ∀ ref ∈ e.columnRefs, ref.Reaches page sc.names.numbered) ↔
      c.PageRefers := by
    cases hsingle : c.singleDistinct with
    | false =>
      refine iff_of_true (outer_reaches hsingle houter fun p hp n hn => ?_)
        (Core.pageRefers_of_not_single hsingle)
      exact (hexports p hp n (Expr.mem_names_of_columnName? hn)).2
        (Core.exists_mem_pageList hp hn)
    | true =>
      obtain ⟨p, hps, hmarked⟩ := Core.singleDistinct_iff.1 hsingle
      refine outer_reaches_iff hps hmarked hspares houter fun n hn => ?_
      rw [hexports p (by simp [hps]) n hn, Core.pageList_of_marked hps hmarked]
      simp
  rw [Query.listsReach_iff_of_derived rfl, Query.listReaches_iff_of_derived rfl,
    and_iff_left hpage, ← houter_iff]
  simp [page, Query.body, Column.exprs]

end

/-! ## Distinct rows in a foreign order -/

section

variable {σ : Type} {sc : Scope σ} {s : SelectBody σ} {c : Core σ} {q : Query}

/-- A projection without a name, which the query around the ranked rows repeats, has only
unqualified columns in it, and all of them are exported. -/
def Core.RankRefers (c : Core σ) : Prop :=
  ∀ p ∈ c.projections, p.columnName? = none → ∀ ref ∈ p.columnRefs,
    ref.table = none ∧ ∃ p' ∈ c.projections, p'.Exports ref.name

theorem Expr.exports_unmarked (e : Expr σ) (n : String) : e.unmarked.Exports n ↔ e.Exports n := by
  rw [Exports, Exports, columnName?_unmarked, wildcard?_unmarked]

/-- The outer names of projections are in scope of a query that exports the same columns. -/
theorem Scope.outerNames_reach_iff (hspares : sc.Spares c) {outer : List (Expr Query)}
    {ranked : Query}
    (houter : (sc.exprs ((c.projections.map Expr.unmarked).map Expr.outerName)).result = .ok outer)
    (hexports : ∀ p ∈ c.projections, ∀ n ∈ p.names,
      (ranked.Exports n ↔ ∃ p ∈ c.projections, p.Exports n)) :
    (∀ e ∈ outer, ∀ ref ∈ e.columnRefs, ref.Reaches ranked sc.names.ranked) ↔ c.RankRefers := by
  rw [refs_exprs_iff houter]
  simp only [List.mem_map, forall_exists_index, and_imp, forall_apply_eq_imp_iff₂,
    Expr.columnRefs_outerName]
  refine forall₂_congr fun p hp => ?_
  cases hname : p.columnName? with
  | some n =>
    refine iff_of_true (fun ref href => ?_) (fun hnone => by cases hnone)
    obtain rfl := List.mem_singleton.1 href
    exact ⟨by simp, (hexports p hp n (Expr.mem_names_of_columnName? hname)).2
      ⟨p, hp, Expr.exports_of_columnName? hname⟩⟩
  | none =>
    simp only [forall_const]
    refine forall₂_congr fun ref href => ?_
    obtain ⟨hn, htable⟩ := Expr.mem_names_of_columnRefs href
    rw [← hexports p hp _ hn]
    constructor
    · intro h
      refine ⟨Option.eq_none_iff_forall_not_mem.2 fun t ht => ?_, h.column⟩
      exact hspares sc.names.ranked (by simp [SyntheticNames.toList]) p hp t (htable t ht)
        (by rw [h.qualifier t ht])
    · rintro ⟨hnone, hcolumn⟩
      exact ⟨by simp [hnone], hcolumn⟩

/-- **The lists around the ranked rows** are in scope exactly when the projections without a name
refer to exported columns. -/
theorem Scope.listsReach_distinctOrder_iff (hspares : sc.Spares c)
    (h : (sc.distinctOrder s c).result = .ok q) : q.ListsReach ↔ c.RankRefers := by
  obtain ⟨columns, outer, rank, duplicate, frame, top, offset, hcolumns, -, -, hframe, houter, -, -,
    rfl⟩ := distinctOrder_builds h
  obtain ⟨rows, filters, groups, having, hrows, -, -, -, rfl⟩ := frame_eq_ok.1 hframe
  generalize hranked : rankedRows sc.names _ columns rank duplicate = ranked
  have hbase : ranked.ListsReach := by
    rw [← hranked]
    exact Query.listsReach_of_not_derived (rows_ne_derived hrows)
  have horder : ColumnRef.Reaches ⟨none, sc.names.order⟩ ranked sc.names.ranked := by
    refine ⟨by simp, .ranked rank sc.names.order, ?_, rfl⟩
    simp [← hranked, rankedRows, Query.body]
  have hexports : ∀ p ∈ c.projections, ∀ n ∈ p.names,
      (ranked.Exports n ↔ ∃ p ∈ c.projections, p.Exports n) := by
    intro p hp n hn
    have hnumber := hspares sc.names.order (by simp [SyntheticNames.toList]) p hp n hn
    have hduplicate := hspares sc.names.duplicate (by simp [SyntheticNames.toList]) p hp n hn
    have hlist := exports_exprs_iff (n := n) hcolumns
    simp only [List.mem_map, exists_exists_and_eq_and, Expr.exports_unmarked] at hlist
    rw [← hlist, ← hranked]
    simp [rankedRows, Query.Exports, Query.body, Column.Exports, hnumber, hduplicate, or_and_right,
      exists_or]
  have houter_iff := outerNames_reach_iff hspares houter hexports
  cases offset with
  | none =>
    rw [Query.listsReach_iff_of_derived rfl, Query.listReaches_iff_of_derived rfl,
      and_iff_left hbase, ← houter_iff]
    simp [Query.body, Column.exprs, or_imp, forall_and, Expr.named, Expr.columnRefs, horder]
  | some offset =>
    rw [Query.listsReach_iff_of_derived rfl, Query.listReaches_iff_of_derived rfl,
      Query.listsReach_iff_of_derived rfl, Query.listReaches_iff_of_derived rfl,
      and_iff_left hbase, ← houter_iff]
    simp [Query.body, Column.exprs, or_imp, forall_and, Expr.named, Expr.columnRefs, Expr.star,
      horder]

end

/-! ## Selects -/

section

variable {options : Options} {s : Select} {c : Core Select} {q : Query}

theorem Core.pageRefers_prepared (options : Options) (c : Core Select) :
    (c.prepared options).PageRefers ↔ c.PageRefers := by
  have hprojections : (c.prepared options).projections =
      c.projections.map (·.map (Select.compiled options)) := rfl
  simp only [PageRefers, baseTable?_prepared, hprojections, List.map_eq_singleton_iff]
  constructor
  · intro h p hp hmarked halias ref href
    have := h (p.map (Select.compiled options)) ⟨p, hp, rfl⟩
      (by rwa [Expr.isMarked_map]) (by rwa [Expr.unmarked_map, Expr.alias?_map]) ref
      (by rwa [Expr.columnRefs_map])
    rwa [Expr.bare_map, Expr.exports_map] at this
  · rintro h _ ⟨p, hp, rfl⟩ hmarked halias ref href
    rw [Expr.isMarked_map] at hmarked
    rw [Expr.unmarked_map, Expr.alias?_map] at halias
    rw [Expr.columnRefs_map] at href
    rw [Expr.bare_map, Expr.exports_map]
    exact h p hp hmarked halias ref href

theorem Core.rankRefers_map (f : Select → Compiled) (c : Core Select) :
    (c.map f).RankRefers ↔ c.RankRefers := by
  simp [RankRefers, Core.map, Expr.columnName?_map, Expr.columnRefs_map, Expr.exports_map]

theorem Select.spares (hc : s.body.cores.head? = some c) {d : Core Compiled}
    (hd : d.projections = c.projections.map (·.map (compiled options))) :
    (s.scope options).Spares d := by
  intro n hn p hp u hu
  rw [hd] at hp
  obtain ⟨p', hp', rfl⟩ := List.mem_map.1 hp
  rw [Expr.names_map] at hu
  refine SyntheticNames.lower_ne_of_mem_avoiding hn ?_
  rw [level, SelectBody.names_map]
  exact SelectBody.mem_names_of_mem_projections hc hp' hu

/-- **The lists around derived tables** refer to their columns, for a page exactly when a single
marked projection without an alias has no columns of other tables or that are not exported in it,
and for distinct rows in a foreign order exactly when the projections without a name have no
qualified columns or that are not exported in them. -/
theorem Select.listsReach_iff (hc : s.body.cores.head? = some c)
    (hq : (s.compile options).result = .ok q) :
    (s.strategy? options = some .paginated → (q.ListsReach ↔ c.PageRefers)) ∧
      (s.strategy? options = some .distinctOrder → (q.ListsReach ↔ c.RankRefers)) := by
  constructor
  · intro h
    obtain ⟨orders, -, hpage⟩ := paginated_eq_ok hc hq h
    rw [← Core.pageRefers_prepared options]
    exact Scope.listsReach_paginated_iff (spares hc rfl) hpage
  · intro h
    obtain ⟨orders, -, hranked⟩ := distinctOrder_eq_ok hc hq h
    rw [← Core.rankRefers_map (compiled options)]
    exact Scope.listsReach_distinctOrder_iff (spares hc rfl) hranked

/-- People and their pets. -/
def peopleAndPets : Source Select :=
  .join .inner (.table { name := "people" }) (.table { name := "pets" })
    (some (.equals (.qualified "pets" "owner_id") (.qualified "people" "id")))

/-- A page of the different values of a column. -/
def valuesPage (column : ColumnRef) : Select :=
  .of
    { cores := [{ projections := [.distinct (.column column)], source := some peopleAndPets }]
      offset := some (.int 1) }

/-- Different values and what a function makes of them, in another order and without the first
one. -/
def valuesInOrder (argument : ColumnRef) : Select :=
  .of
    { cores :=
        [{ projections := [.distinct (.named "name"), .call "LOWER" [.column argument]]
           source := some (.table { name := "people" }) }]
      orders := [(Expr.named "age").asc]
      offset := some (.int 1) }

theorem listsReach_valuesPage_valuesInOrder :
    (∃ c q, (valuesPage ⟨some "people", "name"⟩).body.cores.head? = some c ∧
      ((valuesPage ⟨some "people", "name"⟩).compile {}).result = .ok q ∧
      (valuesPage ⟨some "people", "name"⟩).strategy? {} = some .paginated ∧
      c.PageRefers ∧ q.ListsReach) ∧
    ∃ c q, (valuesInOrder ⟨none, "name"⟩).body.cores.head? = some c ∧
      ((valuesInOrder ⟨none, "name"⟩).compile {}).result = .ok q ∧
      (valuesInOrder ⟨none, "name"⟩).strategy? {} = some .distinctOrder ∧
      c.RankRefers ∧ q.ListsReach := by
  constructor
  · have hq : ((valuesPage ⟨some "people", "name"⟩).compile {}).result = .ok _ := rfl
    have hstrategy : (valuesPage ⟨some "people", "name"⟩).strategy? {} = some .paginated := rfl
    obtain ⟨c, hc⟩ : ∃ c, (valuesPage ⟨some "people", "name"⟩).body.cores.head? = some c :=
      ⟨_, rfl⟩
    have hrefers : c.PageRefers := by
      rw [← Option.some.inj hc]
      intro p hp _ _ ref href
      obtain rfl := List.singleton_inj.1 hp
      obtain rfl := List.mem_singleton.1 href
      exact ⟨by rintro _ ⟨⟩; rfl, Expr.exports_of_columnName? rfl⟩
    exact ⟨c, _, hc, hq, hstrategy, hrefers, ((Select.listsReach_iff hc hq).1 hstrategy).2 hrefers⟩
  · have hq : ((valuesInOrder ⟨none, "name"⟩).compile {}).result = .ok _ := rfl
    have hstrategy : (valuesInOrder ⟨none, "name"⟩).strategy? {} = some .distinctOrder := rfl
    obtain ⟨c, hc⟩ : ∃ c, (valuesInOrder ⟨none, "name"⟩).body.cores.head? = some c := ⟨_, rfl⟩
    have hrefers : c.RankRefers := by
      rw [← Option.some.inj hc]
      intro p hp hname ref href
      simp only [List.mem_cons, List.not_mem_nil, or_false] at hp
      rcases hp with rfl | rfl
      · cases hname
      · obtain rfl := List.mem_singleton.1 href
        exact ⟨rfl, .distinct (.named "name"), by simp, Expr.exports_of_columnName? rfl⟩
    exact ⟨c, _, hc, hq, hstrategy, hrefers, ((Select.listsReach_iff hc hq).2 hstrategy).2 hrefers⟩

/-- The outer query of a page refers to a joined table, and that around ranked rows repeats a call
with the qualifier in it; neither table is in scope there. -/
theorem not_listsReach_joined :
    (∃ q, ((valuesPage ⟨some "pets", "name"⟩).compile {}).result = .ok q ∧
      (valuesPage ⟨some "pets", "name"⟩).strategy? {} = some .paginated ∧ ¬q.ListsReach) ∧
    ∃ q, ((valuesInOrder ⟨some "people", "name"⟩).compile {}).result = .ok q ∧
      (valuesInOrder ⟨some "people", "name"⟩).strategy? {} = some .distinctOrder ∧
      ¬q.ListsReach := by
  refine ⟨⟨_, rfl, rfl, fun h => ?_⟩, _, rfl, rfl, fun h => ?_⟩
  · have hreaches := h _ .refl _ _ rfl (.expr (.qualified "pets" "name")) List.mem_cons_self
      (.qualified "pets" "name") List.mem_cons_self ⟨some "pets", "name"⟩ List.mem_cons_self
    exact absurd (hreaches.qualifier "pets" rfl) (by decide +kernel)
  · have hreaches := h _ (.single ⟨_, rfl⟩) _ _ rfl
      (.expr (.call "LOWER" [.qualified "people" "name"]))
      (List.mem_cons_of_mem _ List.mem_cons_self)
      (.call "LOWER" [.qualified "people" "name"]) List.mem_cons_self ⟨some "people", "name"⟩
      List.mem_cons_self
    exact absurd (hreaches.qualifier "people" rfl) (by decide +kernel)

end

end Transact
