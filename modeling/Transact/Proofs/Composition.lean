import Transact.Proofs.Outcome
import Transact.Proofs.Plan.Builds
import Transact.Proofs.Plan.Hygiene
import Transact.Proofs.Query

/-!
# Subqueries are compiled on their own

A select makes nothing of a subquery in its conditions but the text of it. So a subquery may be
replaced by another one with the same text, or the same failure.

* `Trace.Like`: computations that a view of their results does not tell apart. `Expr.like_mapM`,
  `Source.like_mapM` and `Scope.like_frame` carry it from subqueries to a frame.
* `Scope.Twins`: cores that differ only in conditions and in what is known of their tables; one
  lemma for each strategy says that their queries have the same text (`Scope.Twins.like_core`).
* `SelectBody.like_compile`: the same for whole levels.
* `Scope.has_condition_core`: what the conditions of a core are compiled to is a part of the text.
* `Select.sql_fill_congr`: a select with blanks in its conditions is compiled to the same text
  whichever of two subqueries with one text fills them.
-/

set_option autoImplicit false

namespace Transact

/-! ## Computations in a view -/

namespace Trace

variable {α β γ δ : Type}

/-- The two computations come to the same in a view: they fail alike, or the view does not tell
their results apart. -/
def Like (view : α → β) (t t' : Trace α) : Prop := t.result.map view = t'.result.map view

namespace Like

variable {view : α → β} {view' : γ → δ} {t t' : Trace α}

theorem refl (view : α → β) (t : Trace α) : Like view t t := rfl

theorem pure {a a' : α} (h : view a = view a') : Like view (Pure.pure a) (Pure.pure a') :=
  congrArg Except.ok h

theorem mono {coarser : α → γ} (h : Like view t t')
    (hview : ∀ a a', view a = view a' → coarser a = coarser a') : Like coarser t t' := by
  unfold Like at h ⊢
  cases ht : t.result <;> cases ht' : t'.result <;> rw [ht, ht'] at h
  · obtain rfl := Except.error.inj h
    rfl
  · cases h
  · cases h
  · exact congrArg Except.ok (hview _ _ (Except.ok.inj h))

theorem congr {u u' : Trace α} (h : Like view t t') (hu : u.result = t.result)
    (hu' : u'.result = t'.result) : Like view u u' := by
  rw [Like, hu, hu']
  exact h

/-- Sequences come to the same when their first parts do, and then their second parts. -/
theorem bind {k k' : α → Trace γ} (h : Like view t t')
    (hk : ∀ a a', view a = view a' → Like view' (k a) (k' a')) :
    Like view' (t >>= k) (t' >>= k') := by
  unfold Like at h
  cases ht : t.result with
  | error e =>
    cases ht' : t'.result with
    | error e' =>
      rw [ht, ht'] at h
      obtain rfl := Except.error.inj h
      rw [bind_error ht, bind_error ht']
      rfl
    | ok a' =>
      rw [ht, ht'] at h
      cases h
  | ok a =>
    cases ht' : t'.result with
    | error e' =>
      rw [ht, ht'] at h
      cases h
    | ok a' =>
      rw [ht, ht'] at h
      rw [bind_ok ht, bind_ok ht']
      exact hk a a' (Except.ok.inj h)

theorem bind_same {k k' : α → Trace γ} (t : Trace α) (hk : ∀ a, Like view' (k a) (k' a)) :
    Like view' (t >>= k) (t >>= k') :=
  (refl id t).bind fun a _ h => (show a = _ from h) ▸ hk a

/-- What is said on the way does not matter. -/
theorem say_if {k k' : Unit → Trace α} (p : Prop) [Decidable p] (m : Message)
    (h : Like view (k ()) (k' ())) :
    Like view (if p then say m >>= k else k ()) (if p then say m >>= k' else k' ()) := by
  split
  · exact h
  · exact h

end Like

end Trace

open Text (Has)
open Trace (Like)

/-! ## Expressions and sources -/

section

variable {σ τ ρ : Type}

namespace Expr

mutual

theorem map_congr {f f' : σ → τ} : ∀ e : Expr σ, (∀ q ∈ e.subqueries, f q = f' q) →
    e.map f = e.map f'
  | .column _, _ | .wildcard _, _ | .literal _, _ | .typed _ _, _ | .raw _, _ => rfl
  | .aggregate _ args _, h | .call _ args, h => by rw [map, map, mapList_congr args h]
  | .alias e _, h | .distinct e, h | .not e, h | .isNull e _, h | .grouping e, h
  | .caseSensitive e, h => by rw [map, map, map_congr e h]
  | .binary l _ r, h => by
    rw [map, map, map_congr l fun q hq => h q (List.mem_append_left _ hq),
      map_congr r fun q hq => h q (List.mem_append_right _ hq)]
  | .inList e list _, h => by
    rw [map, map, map_congr e fun q hq => h q (List.mem_append_left _ hq),
      mapList_congr list fun q hq => h q (List.mem_append_right _ hq)]
  | .inSubquery e q _, h => by
    rw [map, map, map_congr e fun q hq => h q (List.mem_append_left _ hq),
      h q (List.mem_append_right _ (List.mem_singleton_self q))]

theorem mapList_congr {f f' : σ → τ} : ∀ es : List (Expr σ),
    (∀ q ∈ subqueriesList es, f q = f' q) → mapList f es = mapList f' es
  | [], _ => rfl
  | e :: es, h => by
    rw [mapList, mapList, map_congr e fun q hq => h q (List.mem_append_left _ hq),
      mapList_congr es fun q hq => h q (List.mem_append_right _ hq)]

end

mutual

theorem map_map (f : τ → ρ) (g : σ → τ) : ∀ e : Expr σ,
    (e.map g).map f = e.map fun q => f (g q)
  | .column _ | .wildcard _ | .literal _ | .typed _ _ | .raw _ => rfl
  | .aggregate _ args _ | .call _ args => by rw [map, map, map, mapList_mapList f g args]
  | .alias e _ | .distinct e | .not e | .isNull e _ | .grouping e | .caseSensitive e => by
    rw [map, map, map, map_map f g e]
  | .binary l _ r => by rw [map, map, map, map_map f g l, map_map f g r]
  | .inList e list _ => by rw [map, map, map, map_map f g e, mapList_mapList f g list]
  | .inSubquery e _ _ => by rw [map, map, map, map_map f g e]

theorem mapList_mapList (f : τ → ρ) (g : σ → τ) : ∀ es : List (Expr σ),
    mapList f (mapList g es) = mapList (fun q => f (g q)) es
  | [] => rfl
  | e :: es => by rw [mapList, mapList, mapList, map_map f g e, mapList_mapList f g es]

end

mutual

theorem mapM_map (f : τ → Trace ρ) (g : σ → τ) : ∀ e : Expr σ,
    (e.map g).mapM f = e.mapM fun q => f (g q)
  | .column _ | .wildcard _ | .literal _ | .typed _ _ | .raw _ => rfl
  | .aggregate _ args _ | .call _ args => by rw [map, mapM, mapM, mapListM_mapList f g args]
  | .alias e _ | .distinct e | .not e | .isNull e _ | .grouping e | .caseSensitive e => by
    rw [map, mapM, mapM, mapM_map f g e]
  | .binary l _ r => by rw [map, mapM, mapM, mapM_map f g l, mapM_map f g r]
  | .inList e list _ => by rw [map, mapM, mapM, mapM_map f g e, mapListM_mapList f g list]
  | .inSubquery e _ _ => by rw [map, mapM, mapM, mapM_map f g e]

theorem mapListM_mapList (f : τ → Trace ρ) (g : σ → τ) : ∀ es : List (Expr σ),
    mapListM f (mapList g es) = mapListM (fun q => f (g q)) es
  | [] => rfl
  | e :: es => by rw [mapList, mapListM, mapListM, mapM_map f g e, mapListM_mapList f g es]

end

section

variable {view : τ → ρ} {f f' : σ → Trace τ}

mutual

/-- An expression comes to the same when its subqueries do. -/
theorem like_mapM (h : ∀ q, Like view (f q) (f' q)) : ∀ e : Expr σ,
    Like (map view) (e.mapM f) (e.mapM f')
  | .column _ | .wildcard _ | .literal _ | .typed _ _ | .raw _ => Like.refl _ _
  | .aggregate _ args _ | .call _ args =>
    (like_mapListM h args).bind fun _ _ hargs => .pure (by rw [map, map, hargs])
  | .alias e _ | .distinct e | .not e | .isNull e _ | .grouping e | .caseSensitive e =>
    (like_mapM h e).bind fun _ _ he => .pure (by rw [map, map, he])
  | .binary l _ r =>
    (like_mapM h l).bind fun _ _ hl => (like_mapM h r).bind fun _ _ hr =>
      .pure (by rw [map, map, hl, hr])
  | .inList e list _ =>
    (like_mapM h e).bind fun _ _ he => (like_mapListM h list).bind fun _ _ hlist =>
      .pure (by rw [map, map, he, hlist])
  | .inSubquery e q _ =>
    (like_mapM h e).bind fun _ _ he => (h q).bind fun _ _ hq => .pure (by rw [map, map, he, hq])

theorem like_mapListM (h : ∀ q, Like view (f q) (f' q)) : ∀ es : List (Expr σ),
    Like (mapList view) (mapListM f es) (mapListM f' es)
  | [] => Like.refl _ _
  | e :: es =>
    (like_mapM h e).bind fun _ _ he => (like_mapListM h es).bind fun _ _ hes =>
      .pure (by rw [mapList, mapList, he, hes])

end

end

end Expr

namespace Source

theorem isJoin_map (g : σ → τ) (s : Source σ) : (s.map g).isJoin = s.isJoin := by
  cases s <;> rfl

theorem map_map (f : τ → ρ) (g : σ → τ) : ∀ s : Source σ,
    (s.map g).map f = s.map fun q => f (g q)
  | .table _ => rfl
  | .raw _ => rfl
  | .join _ left right condition => by
    simp [map, map_map f g left, map_map f g right, Function.comp_def, Expr.map_map]

theorem mapM_map (f : τ → Trace ρ) (g : σ → τ) : ∀ s : Source σ,
    (s.map g).mapM f = s.mapM fun q => f (g q)
  | .table _ => rfl
  | .raw _ => rfl
  | .join kind left right condition => by
    rw [map, mapM, mapM, mapM_map f g left, mapM_map f g right]
    cases condition with
    | none => cases kind <;> rfl
    | some condition => cases kind <;> simp [Expr.mapM_map]

/-- A source comes to the same when the subqueries of its conditions do. -/
theorem like_mapM {view : τ → ρ} {f f' : σ → Trace τ} (h : ∀ q, Like view (f q) (f' q)) :
    ∀ s : Source σ, Like (map view) (s.mapM f) (s.mapM f')
  | .table _ => Like.refl _ _
  | .raw _ => Like.refl _ _
  | .join kind left right condition => by
    rw [mapM, mapM]
    refine (like_mapM h left).bind fun l l' hl => (like_mapM h right).bind fun r r' hr => ?_
    have hbare : ∀ kind, Like (map view) (pure (.join kind l r none))
        (pure (.join kind l' r' none)) := fun kind => .pure (by rw [map, map, hl, hr])
    cases condition with
    | none => cases kind <;> exact hbare _
    | some condition =>
      have hon : ∀ kind, Like (map view)
          (condition.mapM f >>= fun e => pure (.join kind l r (some e)))
          (condition.mapM f' >>= fun e => pure (.join kind l' r' (some e))) := fun kind =>
        (Expr.like_mapM h condition).bind fun _ _ he =>
          .pure (by rw [map, map, hl, hr, Option.map_some, Option.map_some, he])
      cases kind
      case fragment | cross => exact hbare _
      all_goals exact hon _

/-- Joined texts are correlated without a look at the conditions. -/
theorem correlated_map (g : σ → τ) (s : Source σ) :
    (s.map g).correlated.1 = s.correlated.1.map g := by
  fun_cases correlated s with
  | case1 left t condition fragment rest fixed hfixed text =>
    simp [map, correlated, hfixed, text]
  | case2 left t condition fragment rest hfixed => simp [map, correlated, hfixed]
  | case3 s hother =>
    -- a source that is not of the form does not get it by a replacement
    suffices hother' : ∀ left t condition fragment rest,
        s.map g = .join .fragment (.join .leftOuter left (.table t) condition) (.raw fragment)
          rest → False by
      rw [correlated.eq_2 _ hother']
    intro left t condition fragment rest hs
    obtain _ | ⟨kind, l, r, rest'⟩ | _ := s <;> simp only [map, join.injEq, reduceCtorEq] at hs
    obtain ⟨rfl, hl, hr, -⟩ := hs
    obtain _ | ⟨kind, left', t', condition'⟩ | _ := l <;>
      simp only [map, join.injEq, reduceCtorEq] at hl
    obtain ⟨rfl, -, ht, -⟩ := hl
    obtain t' | _ | _ := t' <;> simp only [map, reduceCtorEq] at ht
    obtain _ | _ | fragment' := r <;> simp only [map, reduceCtorEq] at hr
    exact hother _ _ _ _ _ rfl

end Source

theorem Core.map_map (f : τ → ρ) (g : σ → τ) (c : Core σ) :
    (c.map g).map f = c.map fun q => f (g q) := by
  simp [map, Function.comp_def, Expr.map_map, Source.map_map]

theorem SelectBody.map_map (f : τ → ρ) (g : σ → τ) (s : SelectBody σ) :
    (s.map g).map f = s.map fun q => f (g q) := by
  simp [map, SortKey.map, Function.comp_def, Expr.map_map, Core.map_map]

theorem Core.correlated_map (g : σ → τ) (c : Core σ) :
    { c.map g with source := (c.map g).source.map fun s => s.correlated.1 } =
      Core.map g { c with source := c.source.map fun s => s.correlated.1 } := by
  simp [map, Function.comp_def, Source.correlated_map]

end

/-! ## Frames -/

section

variable {σ τ : Type} {collation : String} {sc : Scope τ} {g g' : σ → τ}

namespace Scope

section

variable (h : ∀ q, Like (Query.sql collation) (sc.subquery (g q)) (sc.subquery (g' q)))

include h

theorem like_expr (e : Expr σ) :
    Like (Expr.map (Query.sql collation)) (sc.expr (e.map g)) (sc.expr (e.map g')) := by
  rw [expr, expr, Expr.mapM_map, Expr.mapM_map]
  exact Expr.like_mapM h e

theorem like_exprs : ∀ es : List (Expr σ),
    Like (List.map (Expr.map (Query.sql collation))) (sc.exprs (es.map (·.map g)))
      (sc.exprs (es.map (·.map g')))
  | [] => Like.refl _ _
  | e :: es =>
    (like_expr h e).bind fun _ _ he => (like_exprs es).bind fun _ _ hes =>
      .pure (by rw [List.map_cons, List.map_cons, he, hes])

theorem like_expr? (e : Option (Expr σ)) :
    Like (Option.map (Expr.map (Query.sql collation))) (sc.expr? (e.map (·.map g)))
      (sc.expr? (e.map (·.map g'))) := by
  cases e with
  | none => exact Like.refl _ _
  | some e => exact (like_expr h e).bind fun _ _ he => .pure (congrArg some he)

theorem like_rows (source : Option (Source σ)) (lock : Option Lock) :
    Like (Option.map (Rows.map (Query.sql collation))) (sc.rows (source.map (·.map g)) lock)
      (sc.rows (source.map (·.map g')) lock) := by
  cases source with
  | none => exact Like.refl _ _
  | some source =>
    simp only [Option.map_some, rows, Source.mapM_map]
    exact (source.like_mapM h).bind fun _ _ hs =>
      .pure (by simp only [Option.map_some, Rows.map, hs])

/-- **A frame** comes to the same when the subqueries of its conditions do. -/
theorem like_frame (s : SelectBody τ) (c : Core σ) (groups : List (Expr τ)) :
    Like (QueryBody.map (Query.sql collation)) (sc.frame s (c.map g) groups)
      (sc.frame s (c.map g') groups) := by
  refine (like_rows h c.source s.lock).bind fun _ _ hrows => ?_
  refine (like_exprs h c.wheres).bind fun _ _ hfilters => ?_
  refine Like.bind_same _ fun _ => ?_
  refine (like_expr? h c.having).bind fun _ _ hhaving => ?_
  exact .pure (by simp only [QueryBody.map, hrows, hfilters, hhaving])

end

end Scope

end

/-! ## The text of a level -/

/-- The table without what the schema says about it. -/
def TableRef.plain (t : TableRef) : TableRef := { t with primaryKey := none, columns := [] }

/-- The source with its tables plain. -/
def Source.plain {σ : Type} : Source σ → Source σ
  | .table t => .table t.plain
  | .join kind left right condition => .join kind left.plain right.plain condition
  | .raw text => .raw text

/-- The rows with the tables of their source plain. -/
def Rows.plain {σ : Type} : Rows σ → Rows σ
  | .source s hint => .source s.plain hint
  | .derived q name => .derived q name

theorem Source.isJoin_plain {σ : Type} (s : Source σ) : s.plain.isJoin = s.isJoin := by
  cases s <;> rfl

theorem Source.sql_plain (collation : String) : ∀ (s : Source String) (hint : Option String),
    s.plain.sql collation hint = s.sql collation hint
  | .table _, _ => rfl
  | .raw _, _ => rfl
  | .join kind left right condition, hint => by
    unfold plain sql
    rw [sql_plain collation left, sql_plain collation right, isJoin_plain]

theorem Rows.sql_plain (collation : String) (r : Rows String) :
    r.plain.sql collation = r.sql collation := by
  cases r with
  | source s hint => exact s.sql_plain collation hint
  | derived q name => rfl

/-- What the text of a level is made of: the texts of its subqueries, and its tables without what
the schema says about them. -/
def QueryBody.outline (collation : String) (b : QueryBody Query) : QueryBody String :=
  { b.map (Query.sql collation) with
    rows := (b.rows.map (Rows.map (Query.sql collation))).map Rows.plain }

theorem QueryBody.outline_congr {collation : String} {b b' : QueryBody Query}
    (h : b.map (Query.sql collation) = b'.map (Query.sql collation)) :
    b.outline collation = b'.outline collation := by
  have hrows : b.rows.map (Rows.map (Query.sql collation)) =
      b'.rows.map (Rows.map (Query.sql collation)) := congrArg QueryBody.rows h
  rw [outline, outline, h, hrows]

namespace Query

variable {collation : String} {b b' : QueryBody Query}

theorem sql_congr (h : b.outline collation = b'.outline collation) :
    (Query.of b).sql collation = (Query.of b').sql collation := by
  have hsql : ∀ b : QueryBody Query,
      (b.outline collation).sql collation = (Query.of b).sql collation := by
    intro b
    rw [sql_eq_body, body, QueryBody.sql, QueryBody.sql]
    simp only [QueryBody.outline, QueryBody.map, Option.toList_map, List.map_map,
      Function.comp_def, Rows.sql_plain]
    rfl
  rw [← hsql, ← hsql, h]

theorem sql_derived_congr {q q' : Query} {name : String}
    (hrows : b.rows = some (.derived q name)) (hb : b' = { b with rows := some (.derived q' name) })
    (h : q.sql collation = q'.sql collation) :
    (Query.of b).sql collation = (Query.of b').sql collation :=
  sql_congr (by
    simp only [QueryBody.outline, QueryBody.map, hrows, hb, Option.map_some, Rows.map, h])

end Query

/-! ## Strategies -/

section

variable {τ : Type} {collation : String}

/-- The table as far as it shows in what is compiled: of its columns only the first. -/
def TableRef.trimmed (t : TableRef) : TableRef := { t with columns := t.columns.take 1 }

/-- The two cores differ only in their conditions and in what is known of their tables, and with
these their frames come to the same. -/
structure Scope.Twins (sc : Scope τ) (collation : String) (c c' : Core τ) : Prop where
  projections : c'.projections = c.projections
  groups : c'.groups = c.groups
  distinct : c'.distinct = c.distinct
  baseTable? : c'.baseTable?.map TableRef.trimmed = c.baseTable?.map TableRef.trimmed
  isJoin : c'.source.any Source.isJoin = c.source.any Source.isJoin
  frame : ∀ s groups, Like (QueryBody.outline collation) (sc.frame s c groups)
    (sc.frame s c' groups)

namespace Scope.Twins

variable {sc : Scope τ} {c c' : Core τ} (h : sc.Twins collation c c') (s : SelectBody τ)

include h

/-- The base tables are the same up to columns that do not show. -/
theorem baseTable?_cases : c'.baseTable? = c.baseTable? ∨ ∃ t columns, c.baseTable? = some t ∧
    c'.baseTable? = some { t with columns := columns } ∧ columns.head? = t.columns.head? := by
  have htrimmed := h.baseTable?
  cases hc : c.baseTable? with
  | none =>
    rw [hc, Option.map_none, Option.map_eq_none_iff] at htrimmed
    exact .inl htrimmed
  | some t =>
    rw [hc, Option.map_some] at htrimmed
    obtain ⟨t', hc', ht⟩ := Option.map_eq_some_iff.1 htrimmed
    obtain ⟨name, schema, aliasName, primaryKey, columns⟩ := t'
    obtain ⟨rfl, rfl, rfl, rfl, hcolumns⟩ := TableRef.mk.inj ht
    refine .inr ⟨t, columns, rfl, hc', ?_⟩
    simpa [List.head?_take] using congrArg List.head? hcolumns

theorem rowKeys : s.rowKeys c' = s.rowKeys c := by
  have hcolumn : (c'.baseTable?.bind fun t => t.keyColumn?.or t.columnRefs.head?) =
      c.baseTable?.bind fun t => t.keyColumn?.or t.columnRefs.head? := by
    obtain hbase | ⟨t, columns, hc, hc', hhead⟩ := h.baseTable?_cases
    · rw [hbase]
    · simp only [hc, hc', Option.bind_some, TableRef.columnRefs, List.head?_map, hhead]
      rfl
  rw [SelectBody.rowKeys, SelectBody.rowKeys, hcolumn]

theorem shape [BEq τ] : Shape.of s c' = Shape.of s c := by
  have hkey : c'.keyOnly = c.keyOnly := by
    obtain hbase | ⟨t, columns, hc, hc', -⟩ := h.baseTable?_cases
    · rw [Core.keyOnly, Core.keyOnly, h.projections, hbase]
    · grind [Core.keyOnly, TableRef.qualifier, h.projections]
  simp only [Shape.of, Core.singleDistinct, Core.wholeTable, Core.countOnly, h.isJoin,
    h.projections, h.groups, h.distinct, hkey]

theorem like_count : Like (Query.sql collation) (sc.count s c) (sc.count s c') := by
  rw [Scope.count, Scope.count, h.rowKeys, h.groups]
  refine Like.bind_same _ fun _ => Like.bind_same _ fun _ => Like.bind_same _ fun _ => ?_
  refine (h.frame _ _).bind fun _ _ hframe => ?_
  refine Like.bind_same _ fun _ => Like.bind_same _ fun _ => .pure ?_
  simp only [QueryBody.outline, QueryBody.map, QueryBody.mk.injEq] at hframe
  exact Query.sql_derived_congr rfl rfl
    (Query.sql_congr (by simp only [QueryBody.outline, QueryBody.map, hframe]))

theorem like_plain (sh : Shape) :
    Like (Query.sql collation) (sc.plain sh s c) (sc.plain sh s c') := by
  have harranged : sh.plainArrangement s c' = sh.plainArrangement s c := by
    rw [Shape.plainArrangement, Shape.plainArrangement, h.projections, h.groups]
  rw [Scope.plain, Scope.plain, harranged, h.distinct]
  refine .say_if _ _ ?_
  refine Like.bind_same _ fun _ => Like.bind_same _ fun _ => ?_
  refine (h.frame _ _).bind fun _ _ hframe => ?_
  refine Like.bind_same _ fun _ => .pure (Query.sql_congr ?_)
  simp only [QueryBody.outline, QueryBody.map, QueryBody.mk.injEq] at hframe
  simp only [QueryBody.outline, QueryBody.map, hframe]

theorem like_distinctOrder :
    Like (Query.sql collation) (sc.distinctOrder s c) (sc.distinctOrder s c') := by
  have hidentity : c'.identity = c.identity := by
    funext p
    obtain hbase | ⟨t, columns, hc, hc', -⟩ := h.baseTable?_cases
    · rw [Core.identity, Core.identity, hbase]
    · rw [Core.identity, Core.identity, hc, hc']
      cases p.unaliased.wildcardTable? <;> rfl
  rw [Scope.distinctOrder, Scope.distinctOrder, h.projections, h.groups, hidentity]
  refine Like.bind_same _ fun _ => Like.bind_same _ fun _ => Like.bind_same _ fun _ => ?_
  refine (h.frame _ _).bind fun frame frame' hframe => ?_
  refine Like.bind_same _ fun _ => Like.bind_same _ fun _ => Like.bind_same _ fun offset => ?_
  simp only [QueryBody.outline, QueryBody.map, QueryBody.mk.injEq] at hframe
  have hranked : ∀ columns, (Query.of { frame with columns := columns }).sql collation =
      (Query.of { frame' with columns := columns }).sql collation := fun columns =>
    Query.sql_congr (by simp only [QueryBody.outline, QueryBody.map, hframe])
  cases offset with
  | none => exact .pure (Query.sql_derived_congr rfl rfl (hranked _))
  | some offset =>
    exact .pure (Query.sql_derived_congr rfl rfl (Query.sql_derived_congr rfl rfl (hranked _)))

theorem rankable? (sh : Shape) :
    (sh.rankable? c'.baseTable? : Expr τ → Option (Expr τ)) = sh.rankable? c.baseTable? := by
  funext p
  obtain hbase | ⟨t, columns, hc, hc', -⟩ := h.baseTable?_cases
  · rw [hbase]
  · rw [hc, hc']
    unfold Shape.rankable?
    generalize (if sh.hasCall then p.unmarked else p.bare).unaliased = e
    cases e with
    | wildcard table => cases table <;> rfl
    | _ => rfl

theorem qualifier : c'.baseTable?.map TableRef.qualifier = c.baseTable?.map TableRef.qualifier := by
  obtain hbase | ⟨t, columns, hc, hc', -⟩ := h.baseTable?_cases
  · rw [hbase]
  · rw [hc, hc']
    rfl

theorem like_paginated [BEq τ] (sh : Shape) :
    Like (Query.sql collation) (sc.paginated sh s c) (sc.paginated sh s c') := by
  have hkeys : sh.denseKeys s c' = sh.denseKeys s c := by
    rw [Shape.denseKeys, Shape.denseKeys, h.projections, h.rankable?, h.rowKeys]
  have houter : sc.outerColumns sh c' = sc.outerColumns sh c := by
    have hreference : sc.outerReference c' = sc.outerReference c := by
      funext p
      rw [outerReference, outerReference, h.qualifier]
    rw [outerColumns, outerColumns, outerProjections, outerProjections, h.projections, hreference]
  have hprojections : sh.numberedProjections c' = sh.numberedProjections c := by
    rw [Shape.numberedProjections, Shape.numberedProjections, h.projections]
  have hgroups : sh.numberedGroups s c' = sh.numberedGroups s c := by
    rw [Shape.numberedGroups, Shape.numberedGroups, hprojections, h.groups]
  rw [Scope.paginated, Scope.paginated, h.distinct, hkeys, h.rowKeys, houter, hprojections,
    hgroups]
  split
  all_goals
    refine Like.bind_same _ fun _ => Like.bind_same _ fun _ => Like.bind_same _ fun _ => ?_
    refine Like.bind_same _ fun _ => Like.bind_same _ fun _ => ?_
    refine (h.frame _ _).bind fun _ _ hframe => ?_
    refine Like.bind_same _ fun _ => .pure ?_
    simp only [QueryBody.outline, QueryBody.map, QueryBody.mk.injEq] at hframe
    exact Query.sql_derived_congr rfl rfl
      (Query.sql_congr (by simp only [QueryBody.outline, QueryBody.map, hframe]))

/-- **Twins** are compiled to the same text. -/
theorem like_core [BEq τ] (hcorrelated : sc.Twins collation
      { c with source := c.source.map fun s => s.correlated.1 }
      { c' with source := c'.source.map fun s => s.correlated.1 }) :
    Like (Query.sql collation) (sc.core s c) (sc.core s c') := by
  refine Like.congr ?_ (core_result sc s _) (core_result sc s _)
  rw [h.shape]
  cases (Shape.of s c).strategy with
  | count => exact h.like_count s
  | distinctOrder => exact h.like_distinctOrder s
  | paginated =>
    exact (hcorrelated.like_paginated s _).congr (Core.correlated_bind_result _ _)
      (Core.correlated_bind_result _ _)
  | plain =>
    exact (hcorrelated.like_plain s _).congr (Core.correlated_bind_result _ _)
      (Core.correlated_bind_result _ _)

end Scope.Twins

end

/-! ## Levels -/

section

variable {σ τ : Type} {collation : String} {g g' : σ → τ}

/-- What a level is compiled from, apart from the conditions of its first core. -/
def SelectBody.outsideConditions (s : SelectBody σ) : List (Expr σ) :=
  s.cores.head?.toList.flatMap (fun c => c.projections ++ c.groups) ++ s.orders.map (·.expr) ++
    s.limit.toList ++ s.offset.toList

theorem Expr.map_congr_of_forall {es : List (Expr σ)}
    (h : ∀ e ∈ es, ∀ q ∈ e.subqueries, g q = g' q) :
    es.map (·.map g') = es.map (·.map g) :=
  List.map_congr_left fun e he => (map_congr e (h e he)).symm

theorem Expr.map_congr_of_option {e : Option (Expr σ)}
    (h : ∀ x ∈ e, ∀ q ∈ x.subqueries, g q = g' q) : e.map (·.map g') = e.map (·.map g) := by
  cases e with
  | none => rfl
  | some e => exact congrArg some (map_congr e (h e rfl)).symm

/-- Replacements in the conditions of a core make twins. -/
theorem Scope.twins_map {sc : Scope τ} {c : Core σ}
    (h : ∀ q, Like (Query.sql collation) (sc.subquery (g q)) (sc.subquery (g' q)))
    (hfixed : ∀ e ∈ c.projections ++ c.groups, ∀ q ∈ e.subqueries, g q = g' q) :
    sc.Twins collation (c.map g) (c.map g') where
  projections := Expr.map_congr_of_forall fun e he => hfixed e (List.mem_append_left _ he)
  groups := Expr.map_congr_of_forall fun e he => hfixed e (List.mem_append_right _ he)
  distinct := rfl
  baseTable? := by
    simp [Core.baseTable?, Core.map, Function.comp_def, Source.baseTable_map]
  isJoin := by
    simp [Core.map, Option.any_map, Source.isJoin_map]
  frame := fun s groups => (Scope.like_frame h s c groups).mono fun _ _ => QueryBody.outline_congr

/-- Cores that differ only in conditions are compiled to the same text. -/
theorem Scope.like_core [BEq τ] {sc : Scope τ} (s : SelectBody τ) {c : Core σ}
    (h : ∀ q, Like (Query.sql collation) (sc.subquery (g q)) (sc.subquery (g' q)))
    (hfixed : ∀ e ∈ c.projections ++ c.groups, ∀ q ∈ e.subqueries, g q = g' q) :
    Like (Query.sql collation) (sc.core s (c.map g)) (sc.core s (c.map g')) := by
  refine (twins_map h hfixed).like_core s ?_
  rw [Core.correlated_map, Core.correlated_map]
  exact twins_map h hfixed

/-- **A level** makes nothing of the subqueries in its conditions but their texts. -/
theorem SelectBody.like_compile [BEq τ] (options : Options) {subquery : τ → Trace Query}
    {s : SelectBody σ} (h : ∀ q, Like (Query.sql collation) (subquery (g q)) (subquery (g' q)))
    (hfixed : ∀ e ∈ s.outsideConditions, ∀ q ∈ e.subqueries, g q = g' q) :
    Like (Query.sql collation) ((s.map g).compile options subquery)
      ((s.map g').compile options subquery) := by
  obtain ⟨cores, orders, limit, offset, lock⟩ := s
  simp only [outsideConditions, List.mem_append, List.mem_map, Option.mem_toList,
    List.mem_flatMap] at hfixed
  have horders : orders.map (·.map g') = orders.map (·.map g) :=
    List.map_congr_left fun k hk => by
      rw [SortKey.map, SortKey.map,
        Expr.map_congr k.expr (hfixed _ (.inl (.inl (.inr ⟨k, hk, rfl⟩))))]
  have hlimit : limit.map (·.map g') = limit.map (·.map g) :=
    Expr.map_congr_of_option fun e he => hfixed e (.inl (.inr he))
  have hoffset : offset.map (·.map g') = offset.map (·.map g) :=
    Expr.map_congr_of_option fun e he => hfixed e (.inr he)
  -- the names of a level are chosen without a look into its subqueries
  have hscope : ∀ f f' : σ → τ,
      scope options subquery (map f ⟨cores, orders, limit, offset, lock⟩) =
        scope options subquery (map f' ⟨cores, orders, limit, offset, lock⟩) := by
    intro f f'
    rw [scope, scope, SelectBody.names_map, SelectBody.names_map]
  refine Like.congr ?_ (compile_result ..) (compile_result ..)
  rw [hscope g' g]
  simp only [map, horders, hlimit, hoffset]
  refine Like.bind_same _ fun orders => ?_
  cases cores with
  | nil => exact Like.refl _ _
  | cons c cores =>
    -- a core is compiled without a look at the list of cores
    exact Scope.like_core _ h fun e he =>
      hfixed e (.inl (.inl (.inl ⟨c, rfl, List.mem_append.1 he⟩)))

end

/-! ## Conditions in the text -/

section

variable {σ τ : Type}

mutual

theorem Expr.exists_of_mem_subqueries {f : σ → Trace τ} {q : σ} : ∀ {e : Expr σ} {e' : Expr τ},
    (e.mapM f).result = .ok e' → q ∈ e.subqueries → ∃ q' ∈ e'.subqueries, (f q).result = .ok q'
  | .column _, _, _, hq | .wildcard _, _, _, hq | .literal _, _, _, hq | .typed _ _, _, _, hq
  | .raw _, _, _, hq => by simp at hq
  | .aggregate _ args _, _, h, hq | .call _ args, _, h, hq => by
    obtain ⟨args', hargs, h⟩ := Trace.bind_eq_ok.1 h
    obtain rfl := Except.ok.inj h
    exact exists_of_mem_subqueriesList hargs hq
  | .alias e _, _, h, hq | .distinct e, _, h, hq | .not e, _, h, hq | .isNull e _, _, h, hq
  | .grouping e, _, h, hq | .caseSensitive e, _, h, hq => by
    obtain ⟨e', he, h⟩ := Trace.bind_eq_ok.1 h
    obtain rfl := Except.ok.inj h
    obtain ⟨q', hq', h⟩ := exists_of_mem_subqueries he hq
    exact ⟨q', hq', h⟩
  | .binary l _ r, _, h, hq => by
    obtain ⟨l', hl, h⟩ := Trace.bind_eq_ok.1 h
    obtain ⟨r', hr, h⟩ := Trace.bind_eq_ok.1 h
    obtain rfl := Except.ok.inj h
    rcases List.mem_append.1 hq with hq | hq
    · obtain ⟨q', hq', h⟩ := exists_of_mem_subqueries hl hq
      exact ⟨q', List.mem_append_left _ hq', h⟩
    · obtain ⟨q', hq', h⟩ := exists_of_mem_subqueries hr hq
      exact ⟨q', List.mem_append_right _ hq', h⟩
  | .inList e list _, _, h, hq => by
    obtain ⟨e', he, h⟩ := Trace.bind_eq_ok.1 h
    obtain ⟨list', hlist, h⟩ := Trace.bind_eq_ok.1 h
    obtain rfl := Except.ok.inj h
    rcases List.mem_append.1 hq with hq | hq
    · obtain ⟨q', hq', h⟩ := exists_of_mem_subqueries he hq
      exact ⟨q', List.mem_append_left _ hq', h⟩
    · obtain ⟨q', hq', h⟩ := exists_of_mem_subqueriesList hlist hq
      exact ⟨q', List.mem_append_right _ hq', h⟩
  | .inSubquery e _ _, _, h, hq => by
    obtain ⟨e', he, h⟩ := Trace.bind_eq_ok.1 h
    obtain ⟨r, hr, h⟩ := Trace.bind_eq_ok.1 h
    obtain rfl := Except.ok.inj h
    rcases List.mem_append.1 hq with hq | hq
    · obtain ⟨q', hq', h⟩ := exists_of_mem_subqueries he hq
      exact ⟨q', List.mem_append_left _ hq', h⟩
    · rw [List.mem_singleton.1 hq]
      exact ⟨r, List.mem_append_right _ (List.mem_singleton_self r), hr⟩

theorem Expr.exists_of_mem_subqueriesList {f : σ → Trace τ} {q : σ} :
    ∀ {es : List (Expr σ)} {es' : List (Expr τ)}, (mapListM f es).result = .ok es' →
      q ∈ subqueriesList es → ∃ q' ∈ subqueriesList es', (f q).result = .ok q'
  | [], _, _, hq => by simp at hq
  | e :: es, _, h, hq => by
    obtain ⟨e', he, h⟩ := Trace.bind_eq_ok.1 h
    obtain ⟨es', hes, h⟩ := Trace.bind_eq_ok.1 h
    obtain rfl := Except.ok.inj h
    rcases List.mem_append.1 hq with hq | hq
    · obtain ⟨q', hq', h⟩ := exists_of_mem_subqueries he hq
      exact ⟨q', List.mem_append_left _ hq', h⟩
    · obtain ⟨q', hq', h⟩ := exists_of_mem_subqueriesList hes hq
      exact ⟨q', List.mem_append_right _ hq', h⟩

end

end

namespace Query

theorem has_derived (collation : String) {q r : Query} {name : String}
    (h : q.body.rows = some (.derived r name)) : Has (q.sql collation) (r.sql collation) :=
  (has_sql_of_holds collation (.inl ⟨name, h⟩)).trans (((Has.refl _).right _).left _)

theorem has_condition (collation : String) {q : Query} {e : Expr Query}
    (h : e ∈ q.body.filters ++ q.body.having.toList) :
    Has (q.sql collation) (e.querySql collation) := by
  refine has_querySql collation ?_
  simp only [QueryBody.exprs, List.mem_append] at h ⊢
  rcases h with h | h
  · exact .inl (.inl (.inl (.inr h)))
  · exact .inl (.inr h)

end Query

namespace Scope

variable {σ : Type} {sc : Scope σ} {s : SelectBody σ} {c : Core σ} {e : Expr σ}

theorem exists_of_mem_frame {groups : List (Expr σ)} {f : QueryBody Query}
    (h : (sc.frame s c groups).result = .ok f) (he : e ∈ c.wheres ++ c.having.toList) :
    ∃ e' ∈ f.filters ++ f.having.toList, (sc.expr e).result = .ok e' := by
  obtain ⟨rows, filters, groups', having, -, hfilters, -, hhaving, rfl⟩ := frame_eq_ok.1 h
  rcases List.mem_append.1 he with he | he
  · obtain ⟨e', he', h⟩ := exists_of_mem_left hfilters he
    exact ⟨e', List.mem_append_left _ he', h⟩
  · rw [Option.mem_toList.1 he] at hhaving
    obtain ⟨e', he', h⟩ := Trace.bind_eq_ok.1 hhaving
    obtain rfl := Except.ok.inj h
    exact ⟨e', List.mem_append_right _ (List.mem_singleton_self e'), he'⟩

/-- **The conditions of a core** are a part of the text, whatever the strategy. -/
theorem has_condition_core [BEq σ] (collation : String) {q : Query}
    (h : (sc.core s c).result = .ok q) (he : e ∈ c.wheres ++ c.having.toList) :
    ∃ e', (sc.expr e).result = .ok e' ∧ Has (q.sql collation) (e'.querySql collation) := by
  have hcore := core_eq_ok h
  cases hstrategy : (Shape.of s c).strategy with
  | count =>
    rw [hstrategy] at hcore
    obtain ⟨top, offset, window, frame, orders, -, -, hframe, -, -, rfl⟩ := count_builds hcore
    obtain ⟨e', he', h⟩ := exists_of_mem_frame hframe he
    refine ⟨e', h, (Query.has_derived collation rfl).trans ?_⟩
    exact Query.has_condition collation he'
  | distinctOrder =>
    rw [hstrategy] at hcore
    obtain ⟨columns, outer, rank, duplicate, frame, top, offset, -, -, -, hframe, -, -, -, rfl⟩ :=
      distinctOrder_builds hcore
    obtain ⟨e', he', h⟩ := exists_of_mem_frame hframe he
    have hranked : Has ((rankedRows sc.names frame columns rank duplicate).sql collation)
        (e'.querySql collation) := Query.has_condition collation he'
    refine ⟨e', h, ?_⟩
    cases offset with
    | none => exact (Query.has_derived collation rfl).trans hranked
    | some offset =>
      exact (Query.has_derived collation rfl).trans
        ((Query.has_derived collation rfl).trans hranked)
  | paginated =>
    rw [hstrategy] at hcore
    obtain ⟨keys, top, offset, outer, ranking, window, columns, frame, -, -, -, -, -, hframe, -,
      rfl⟩ := paginated_builds hcore
    obtain ⟨e', he', h⟩ := exists_of_mem_frame hframe he
    refine ⟨e', h, (Query.has_derived collation rfl).trans ?_⟩
    exact Query.has_condition collation he'
  | plain =>
    rw [hstrategy] at hcore
    obtain ⟨top, columns, frame, orders, distinct, ps, -, -, -, hframe, -, rfl⟩ :=
      plain_builds hcore
    obtain ⟨e', he', h⟩ := exists_of_mem_frame hframe he
    exact ⟨e', h, Query.has_condition collation he'⟩

end Scope

/-! ## Blanks -/

/-- The select with its blanks filled: `none` is a blank that stands for a subquery. -/
def SelectBody.fill (t : SelectBody (Option Select)) (q : Select) : Select :=
  .of (t.map (·.getD q))

namespace Select

variable {options : Options} {q q' : Select}

theorem level_fill (options : Options) (t : SelectBody (Option Select)) (q : Select) :
    (t.fill q).level options = t.map fun o => compiled options (o.getD q) := by
  rw [level, SelectBody.fill, body, SelectBody.map_map]

theorem like_compile_iff :
    Like (Query.sql options.collation) (q.compile options) (q'.compile options) ↔
      Statement.sql options (.select q) = Statement.sql options (.select q') := by
  rw [sql_result, sql_result]
  rfl

/-- A blank in the conditions on rows or groups is filled with the text of the subquery. -/
theorem has_fill {t : SelectBody (Option Select)} {c : Core (Option Select)} {text : String}
    (htext : Statement.sql options (.select (t.fill q)) = .ok text)
    (hc : t.cores.head? = some c) {e : Expr (Option Select)}
    (he : e ∈ c.wheres ++ c.having.toList) (hblank : none ∈ e.subqueries) :
    ∃ part, Statement.sql options (.select q) = .ok part ∧ Has text ("IN (" ++ part ++ ")") := by
  rw [sql_result] at htext
  obtain ⟨query, hquery, rfl⟩ := Except.map_eq_ok_iff.1 htext
  rw [compile_eq, level_fill] at hquery
  obtain ⟨orders, c', cores, -, hcores, hcore⟩ := SelectBody.compile_eq_ok.1 hquery
  obtain rfl : c' = c.map fun o => compiled options (o.getD q) := by
    have hhead := congrArg List.head? hcores
    rw [SelectBody.map, List.head?_map, hc] at hhead
    exact (Option.some.inj hhead).symm
  have he' : e.map (fun o => compiled options (o.getD q)) ∈
      (c.map fun o => compiled options (o.getD q)).wheres ++
        (c.map fun o => compiled options (o.getD q)).having.toList := by
    rw [Core.map, Option.toList_map, ← List.map_append]
    exact List.mem_map_of_mem he
  obtain ⟨x, hx, hhas⟩ := Scope.has_condition_core options.collation hcore he'
  have hsub : compiled options q ∈ (e.map fun o => compiled options (o.getD q)).subqueries := by
    rw [Expr.subqueries_map]
    exact List.mem_map.2 ⟨none, hblank, rfl⟩
  obtain ⟨r, hr, hcompiled⟩ := Expr.exists_of_mem_subqueries hx hsub
  exact ⟨r.sql options.collation, sql_eq hcompiled,
    hhas.trans (Expr.has_inQuery options.collation hr)⟩

/-- **A subquery in a condition counts only for its text**: with blanks only in the conditions of
its first core, a select is compiled to the same text, or fails alike, for subqueries that do. In
the text, what fills a blank outside of the joins stands in parentheses after `IN`. -/
theorem sql_fill_congr {t : SelectBody (Option Select)}
    (ht : ∀ e ∈ t.outsideConditions, none ∉ e.subqueries)
    (hq : Statement.sql options (.select q) = Statement.sql options (.select q')) :
    Statement.sql options (.select (t.fill q)) = Statement.sql options (.select (t.fill q')) ∧
      ∀ text, Statement.sql options (.select (t.fill q)) = .ok text →
        ∀ c ∈ t.cores.head?, ∀ e ∈ c.wheres ++ c.having.toList, none ∈ e.subqueries →
          ∃ part, Statement.sql options (.select q) = .ok part ∧
            Has text ("IN (" ++ part ++ ")") := by
  refine ⟨?_, fun text htext c hc e he hblank => has_fill htext hc he hblank⟩
  rw [← like_compile_iff, compile_eq, compile_eq, level_fill, level_fill]
  refine SelectBody.like_compile options (fun o => ?_) (fun e he o ho => ?_)
  · cases o with
    | none => exact like_compile_iff.2 hq
    | some r => exact Like.refl _ _
  · cases o with
    | none => exact absurd ho (ht e he)
    | some r => rfl

/-- A page of rows whose column is in a subquery left blank, unless another one is null. -/
def blankPage : SelectBody (Option Select) where
  cores :=
    [{ projections := [.named "a"]
       source := some (.table { name := "t" })
       wheres := [.binary (.isNull (.named "b") false) .or (.inSubquery (.named "a") none true)] }]
  limit := some (.int 2)
  offset := some (.int 1)

/-- The values of a column. -/
def columnValues (source : Source Select) : Select :=
  .of { cores := [{ projections := [.named "c"], source := some source }] }

theorem sql_fill_congr_blankPage :
    (∀ e ∈ blankPage.outsideConditions, none ∉ e.subqueries) ∧
      Statement.sql {} (.select (columnValues (.table { name := "u" }))) =
        Statement.sql {} (.select (columnValues (.raw "[u]"))) ∧
      Statement.sql {} (.select (blankPage.fill (columnValues (.table { name := "u" })))) =
        Statement.sql {} (.select (blankPage.fill (columnValues (.raw "[u]")))) ∧
      ∃ text part,
        Statement.sql {} (.select (blankPage.fill (columnValues (.table { name := "u" })))) =
          .ok text ∧
        Statement.sql {} (.select (columnValues (.table { name := "u" }))) = .ok part ∧
        Has text ("IN (" ++ part ++ ")") := by
  have hblank : ∀ e ∈ blankPage.outsideConditions, none ∉ e.subqueries := by
    simp [blankPage, SelectBody.outsideConditions, Expr.named, Expr.int]
  have htext : Statement.sql {} (.select (columnValues (.table { name := "u" }))) =
      Statement.sql {} (.select (columnValues (.raw "[u]"))) := rfl
  obtain ⟨hsame, hin⟩ := sql_fill_congr hblank htext
  obtain ⟨text, hpage⟩ : ∃ text,
      Statement.sql {} (.select (blankPage.fill (columnValues (.table { name := "u" })))) =
        .ok text := ⟨_, rfl⟩
  obtain ⟨part, hpart, hhas⟩ := hin _ hpage _ rfl _ List.mem_cons_self (by simp)
  exact ⟨hblank, htext, hsame, text, part, hpage, hpart, hhas⟩

end Select

end Transact
