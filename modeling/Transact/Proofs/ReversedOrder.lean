import Transact.Proofs.DenseRank
import Transact.Proofs.UpdateText

/-!
# Reversed orders

A select in the reverse order is compiled to the same query with every direction turned. Main
statement: `Select.compile_reversed`.

* `Scope.distinctKeys_reverseAll`: the keys that repeat earlier ones are the same in both orders.
* `Shape.of_reverseOrders`: no fact about a select depends on a direction.
* `SelectBody.alike_compile`: both orders compile, or fail alike. Under each strategy the two runs
  resolve the same expressions; only where extremes are sorted by do these differ, in the function.
* `Scope.plain_reverseOrders`: the query of a plain select, in the reverse order.
-/

set_option autoImplicit false

namespace Transact

open Text
open Trace (Like)

/-! ## Keys -/

section

variable {σ τ : Type} (sc : Scope σ)

namespace SortKey

theorem map_reverseAll (f : σ → τ) (ks : List (SortKey σ)) :
    (reverseAll ks).map (map f) = reverseAll (ks.map (map f)) := by
  simp [reverseAll, reverse, map, Function.comp_def]

@[simp]
theorem expr_reverseAll (ks : List (SortKey σ)) :
    (reverseAll ks).map SortKey.expr = ks.map SortKey.expr := by
  simp [reverseAll, reverse, Function.comp_def]

end SortKey

namespace Scope

theorem labelled_reverseAll (ks : List (SortKey σ)) :
    sc.labelled (SortKey.reverseAll ks) =
      (List.map fun x => (x.1, x.2.reverse)) <$> sc.labelled ks := by
  induction ks with
  | nil => simp [SortKey.reverseAll, labelled]
  | cons k ks ih =>
    have hcons : SortKey.reverseAll (k :: ks) = k.reverse :: SortKey.reverseAll ks := rfl
    rw [hcons, labelled, labelled, ih]
    simp [SortKey.reverse]

/-- **Repetitions are the same** in the reverse order. -/
theorem distinctKeys_reverseAll (ks : List (SortKey σ)) :
    sc.distinctKeys (SortKey.reverseAll ks) = SortKey.reverseAll <$> sc.distinctKeys ks := by
  rw [distinctKeys, distinctKeys, labelled_reverseAll]
  simp [firstOfEach_map, SortKey.reverseAll]

end Scope

end

/-! ## Shapes -/

section

variable {σ : Type}

theorem SelectBody.map_reverseOrders {τ : Type} (f : σ → τ) (s : SelectBody σ) :
    s.reverseOrders.map f = (s.map f).reverseOrders :=
  congrArg (s.map f).withOrders (SortKey.map_reverseAll f s.orders)

theorem SelectBody.names_reverseOrders (s : SelectBody σ) : s.reverseOrders.names = s.names := by
  simp [reverseOrders, withOrders, names, SortKey.reverseAll, SortKey.reverse, List.flatMap_map]

theorem SelectBody.scope_reverseOrders (options : Options) (subquery : σ → Trace Query)
    (s : SelectBody σ) :
    s.reverseOrders.scope options subquery = s.scope options subquery := by
  rw [scope, scope, names_reverseOrders]

/-- The shape by which a level is compiled, unless it has no core or its order does not compile. -/
def SelectBody.shape? [BEq σ] (options : Options) (subquery : σ → Trace Query)
    (s : SelectBody σ) : Option Shape :=
  match s.cores, ((s.scope options subquery).distinctKeys s.orders).result with
  | c :: _, .ok orders => some (Shape.of { s with orders := orders } c)
  | _, _ => none

variable [BEq σ] {options : Options} {subquery : σ → Trace Query} {s : SelectBody σ}

theorem SelectBody.strategy?_eq_map_shape? :
    s.strategy? options subquery = (s.shape? options subquery).map Shape.strategy := by
  rw [strategy?, shape?]
  cases s.cores with
  | nil => rfl
  | cons c cores => cases ((s.scope options subquery).distinctKeys s.orders).result <;> rfl

/-- **No fact about a select** depends on a direction. -/
theorem Shape.of_reverseOrders (s : SelectBody σ) (c : Core σ) :
    Shape.of s.reverseOrders c = Shape.of s c := by
  simp [Shape.of, SelectBody.reverseOrders, SelectBody.withOrders, SortKey.reverseAll,
    SortKey.reverse, Function.comp_def]

theorem SelectBody.shape?_reverseOrders :
    s.reverseOrders.shape? options subquery = s.shape? options subquery := by
  have hkeys : s.reverseOrders.orders = SortKey.reverseAll s.orders := rfl
  have hcores : s.reverseOrders.cores = s.cores := rfl
  rw [shape?, shape?, scope_reverseOrders, hkeys, hcores, Scope.distinctKeys_reverseAll]
  cases s.cores with
  | nil => rfl
  | cons c cores =>
    obtain ⟨log, result⟩ := (s.scope options subquery).distinctKeys s.orders
    cases result with
    | error e => rfl
    | ok kept => exact congrArg some (Shape.of_reverseOrders { s with orders := kept } c)

end

/-! ## Both orders compile, or fail alike -/

/-- The two computations fail alike, or both succeed. -/
abbrev Trace.Alike {α : Type} (t t' : Trace α) : Prop := Like (fun _ => ()) t t'

open Trace (Alike)

theorem Trace.Alike.isOk_iff {α : Type} {t t' : Trace α} (h : Alike t t') :
    (∃ a, t.result = .ok a) ↔ ∃ a, t'.result = .ok a := by
  rw [← Except.isOk_map_iff (f := fun _ => ()), show t.result.map (fun _ => ()) = _ from h,
    Except.isOk_map_iff]

section

variable {σ : Type} (sc : Scope σ) (s : SelectBody σ) (c : Core σ)

namespace Scope

theorem alike_keys {ks ks' : List (SortKey σ)}
    (h : List.Forall₂ (fun k k' => Alike (sc.expr k.expr) (sc.expr k'.expr)) ks ks') :
    Alike (sc.keys ks) (sc.keys ks') := by
  induction h with
  | nil => exact Like.refl _ _
  | cons hk _ ih => exact hk.bind fun _ _ _ => ih.bind fun _ _ _ => .pure rfl

theorem alike_keys_of_exprs {ks ks' : List (SortKey σ)}
    (h : ks.map SortKey.expr = ks'.map SortKey.expr) : Alike (sc.keys ks) (sc.keys ks') := by
  rw [← List.forall₂_eq_eq_eq, List.forall₂_map_left_iff, List.forall₂_map_right_iff] at h
  exact sc.alike_keys (h.imp fun _ _ he => he ▸ Like.refl _ _)

theorem alike_window (ranking : Ranking) (partition : List (Expr σ)) {ks ks' : List (SortKey σ)}
    (h : ks.map SortKey.expr = ks'.map SortKey.expr) :
    Alike (sc.window ranking partition ks) (sc.window ranking partition ks') :=
  .bind_same _ fun _ => (sc.alike_keys_of_exprs h).bind fun _ _ _ => .pure rfl

/-- The least and the greatest of an expression have the same subqueries. -/
theorem alike_extremes (ks : List (SortKey σ)) :
    Alike (sc.keys ((SortKey.reverseAll ks).map SortKey.extreme))
      (sc.keys (ks.map SortKey.extreme)) := by
  refine sc.alike_keys ?_
  rw [SortKey.reverseAll, List.map_map, List.forall₂_map_left_iff, List.forall₂_map_right_iff,
    List.forall₂_same]
  exact fun k _ => .bind_same (Expr.mapListM sc.subquery [k.expr.bare.unaliased]) fun _ => .pure rfl

end Scope

/-- Both orders number the rows by the same expressions. -/
theorem SelectBody.like_rowKeys :
    Like (List.map SortKey.expr) (s.reverseOrders.rowKeys c) (s.rowKeys c) := by
  have hempty : s.reverseOrders.orders.isEmpty = s.orders.isEmpty := List.isEmpty_map
  rw [rowKeys, rowKeys, hempty]
  split
  · exact Like.refl _ _
  · exact .pure (SortKey.expr_reverseAll s.orders)

variable [BEq σ] (sh : Shape)

theorem Shape.expr_withProjection (base : Option TableRef) (p : Expr σ)
    {ks ks' : List (SortKey σ)} (h : ks.map SortKey.expr = ks'.map SortKey.expr) :
    (sh.withProjection base ks p).map SortKey.expr =
      (sh.withProjection base ks' p).map SortKey.expr := by
  unfold withProjection
  cases sh.rankable? base p with
  | none => exact h
  | some e =>
    have hany : ks.any (·.expr == e) = ks'.any (·.expr == e) := by
      have := congrArg (List.any · (· == e)) h
      rwa [List.any_map, List.any_map] at this
    simp only [hany]
    split
    · exact h
    · rw [List.map_append, List.map_append, h]

/-- Which projections are added to keys depends on the expressions of these. -/
theorem Shape.expr_foldl_withProjection (base : Option TableRef) (ps : List (Expr σ))
    {ks ks' : List (SortKey σ)} (h : ks.map SortKey.expr = ks'.map SortKey.expr) :
    (ps.foldl (sh.withProjection base) ks).map SortKey.expr =
      (ps.foldl (sh.withProjection base) ks').map SortKey.expr := by
  induction ps generalizing ks ks' with
  | nil => exact h
  | cons p ps ih => exact ih (sh.expr_withProjection base p h)

/-- Both orders rank the rows by the same expressions. -/
theorem Shape.like_denseKeys :
    Like (List.map SortKey.expr) (sh.denseKeys s.reverseOrders c) (sh.denseKeys s c) := by
  have hexprs : (c.projections.foldl (sh.withProjection c.baseTable?)
      s.reverseOrders.orders).map SortKey.expr =
        (c.projections.foldl (sh.withProjection c.baseTable?) s.orders).map SortKey.expr :=
    sh.expr_foldl_withProjection _ _ (SortKey.expr_reverseAll s.orders)
  have hnil := List.map_eq_nil_iff.symm.trans ((congrArg (· = []) hexprs).to_iff.trans
    List.map_eq_nil_iff)
  by_cases hkeys : c.projections.foldl (sh.withProjection c.baseTable?) s.orders = []
  · -- there is nothing to rank by, so the rows are numbered
    exact (s.like_rowKeys c).congr (denseKeys_result_of_nil (hnil.2 hkeys))
      (denseKeys_result_of_nil hkeys)
  · exact (Like.pure hexprs).congr (denseKeys_result_eq sh s.reverseOrders c (mt hnil.1 hkeys))
      (denseKeys_result_eq sh s c hkeys)

theorem Shape.numberedGroups_reverseOrders :
    sh.numberedGroups s.reverseOrders c = sh.numberedGroups s c := by
  have hcolumns : ∀ groups : List (Expr σ),
      Expr.columnsForDistinct groups (SortKey.reverseAll s.orders) =
        Expr.columnsForDistinct groups s.orders := fun groups => List.foldl_map
  simp [numberedGroups, SelectBody.reverseOrders, SelectBody.withOrders, hcolumns]

namespace Scope

omit [BEq σ] in
theorem alike_count : Alike (sc.count s.reverseOrders c) (sc.count s c) :=
  (s.like_rowKeys c).bind fun _ _ hkeys => .bind_same (sc.expr? s.countLimit?) fun _ =>
    (sc.alike_window .rowNumber [] hkeys).bind fun _ _ _ => .bind_same (sc.frame s c c.groups)
      fun _ => (sc.alike_keys_of_exprs (SortKey.expr_reverseAll s.orders)).bind fun _ _ _ =>
        .bind_same (sc.expr? s.offset) fun _ => .pure rfl

omit [BEq σ] in
theorem alike_distinctOrder : Alike (sc.distinctOrder s.reverseOrders c) (sc.distinctOrder s c) :=
  have hkeys := SortKey.expr_reverseAll s.orders
  .bind_same _ fun _ => (sc.alike_window .denseRank [] hkeys).bind fun _ _ _ =>
    (sc.alike_window .rowNumber _ hkeys).bind fun _ _ _ => .bind_same (sc.frame s c c.groups)
      fun _ => .bind_same _ fun _ => .bind_same (sc.expr? s.limit) fun _ =>
        .bind_same (sc.expr? s.offset) fun offset => by
          cases offset <;> exact .pure rfl

theorem alike_paginated : Alike (sc.paginated sh s.reverseOrders c) (sc.paginated sh s c) := by
  have hkeys : Like (List.map SortKey.expr)
      (if c.distinct || sh.singleDistinct then sh.denseKeys s.reverseOrders c
        else s.reverseOrders.rowKeys c)
      (if c.distinct || sh.singleDistinct then sh.denseKeys s c else s.rowKeys c) := by
    split
    · exact Shape.like_denseKeys s c sh
    · exact s.like_rowKeys c
  rw [paginated, paginated, Shape.numberedGroups_reverseOrders]
  split at hkeys
  all_goals
    rename_i hdistinct
    simp only [hdistinct]
    refine hkeys.bind fun _ _ hkeys => .bind_same (sc.expr? s.boundedLimit?) fun _ => ?_
    refine .bind_same _ fun _ => (sc.alike_window _ [] hkeys).bind fun _ _ _ => ?_
    refine .bind_same _ fun _ => .bind_same (sc.frame s c _) fun _ => ?_
    exact .bind_same (sc.expr? s.offset) fun _ => .pure rfl

omit [BEq σ] in
theorem alike_plain : Alike (sc.plain sh s.reverseOrders c) (sc.plain sh s c) := by
  refine Like.congr ?_ (plain_result sc sh _ c) (plain_result sc sh s c)
  have horders : Alike (sc.keys (sh.plainArrangement s.reverseOrders c).orders)
      (sc.keys (sh.plainArrangement s c).orders) := by
    unfold Shape.plainArrangement
    split
    · exact sc.alike_extremes s.orders
    · split <;> exact sc.alike_keys_of_exprs (SortKey.expr_reverseAll s.orders)
  have hprojections : (sh.plainArrangement s.reverseOrders c).projections =
      (sh.plainArrangement s c).projections := by
    unfold Shape.plainArrangement
    split
    · rfl
    · split <;> rfl
  have hgroups : (sh.plainArrangement s.reverseOrders c).groups =
      (sh.plainArrangement s c).groups := by
    unfold Shape.plainArrangement
    split
    · rfl
    · split <;> rfl
  rw [hprojections, hgroups]
  exact .bind_same (sc.expr? s.limit) fun _ => .bind_same _ fun _ =>
    .bind_same (sc.frame s c _) fun _ => horders.bind fun _ _ _ => .pure rfl

theorem alike_core : Alike (sc.core s.reverseOrders c) (sc.core s c) := by
  refine Like.congr ?_ (core_result sc _ c) (core_result sc s c)
  rw [Shape.of_reverseOrders]
  cases (Shape.of s c).strategy with
  | count => exact sc.alike_count s c
  | distinctOrder => exact sc.alike_distinctOrder s c
  | paginated => exact .bind_same _ fun c => sc.alike_paginated s c _
  | plain => exact .bind_same _ fun c => sc.alike_plain s c _

end Scope

variable (options : Options) (subquery : σ → Trace Query)

/-- **Both orders compile**, or fail alike. -/
theorem SelectBody.alike_compile :
    Trace.Alike (s.reverseOrders.compile options subquery) (s.compile options subquery) := by
  refine Like.congr ?_ (compile_result options subquery _) (compile_result options subquery s)
  rw [scope_reverseOrders, show s.reverseOrders.orders = SortKey.reverseAll s.orders from rfl,
    Scope.distinctKeys_reverseAll, ← bind_pure_comp, bind_assoc]
  refine .bind_same _ fun kept => ?_
  rw [pure_bind, show s.reverseOrders.cores = s.cores from rfl]
  cases s.cores with
  | nil => exact Like.refl _ _
  | cons c cores => exact Scope.alike_core _ { s with orders := kept } c

end

/-! ## Plain selects -/

/-- The key in the other direction. -/
def Key.reversed {σ : Type} (k : Key σ) : Key σ :=
  { k with direction := k.direction.map Direction.reversed }

/-- The query in the reverse order. -/
def Query.reversed (q : Query) : Query :=
  .of { q.body with orders := q.body.orders.map Key.reversed }

section

variable {σ : Type} {sc : Scope σ} {s : SelectBody σ} {c : Core σ} {sh : Shape} {q : Query}

/-- Without grouping a plain select is arranged in its own order. -/
theorem Shape.plainArrangement_withOrders (h : sh.groupsToLimit = false)
    (orders : List (SortKey σ)) :
    sh.plainArrangement (s.withOrders orders) c =
      { sh.plainArrangement s c with orders := orders } := by
  simp only [plainArrangement, h, Bool.false_eq_true, if_false]
  split <;> rfl

namespace Scope

theorem keys_reverseAll {ks : List (SortKey σ)} {ks' : List (Key Query)}
    (h : (sc.keys ks).result = .ok ks') :
    (sc.keys (SortKey.reverseAll ks)).result = .ok (ks'.map Key.reversed) := by
  induction ks generalizing ks' with
  | nil =>
    obtain rfl := Except.ok.inj h
    rfl
  | cons k ks ih =>
    simp only [keys, Trace.bind_eq_ok, Trace.pure_result, Except.ok.injEq] at h
    obtain ⟨e, he, rest, hrest, rfl⟩ := h
    rw [show SortKey.reverseAll (k :: ks) = k.reverse :: SortKey.reverseAll ks from rfl, keys,
      Trace.bind_eq_ok]
    exact ⟨e, he, Trace.bind_eq_ok.2 ⟨_, ih hrest, rfl⟩⟩

/-- **A plain select in the reverse order** is the same query in the reverse order, unless its
limit groups it. -/
theorem plain_reverseOrders (hgroups : sh.groupsToLimit = false)
    (h : (sc.plain sh s c).result = .ok q) :
    (sc.keys s.orders).result = .ok q.body.orders ∧
      (sc.plain sh s.reverseOrders c).result = .ok q.reversed := by
  have horders : (sh.plainArrangement s c).orders = s.orders :=
    congrArg Arrangement.orders (Shape.plainArrangement_withOrders hgroups s.orders)
  have hreversed : sh.plainArrangement s.reverseOrders c =
      { sh.plainArrangement s c with orders := SortKey.reverseAll s.orders } :=
    Shape.plainArrangement_withOrders hgroups _
  simp only [plain_result, Trace.bind_eq_ok, horders] at h
  obtain ⟨top, htop, columns, hcolumns, frame, hframe, orders, hkeys, h⟩ := h
  obtain rfl := Except.ok.inj h
  refine ⟨hkeys, ?_⟩
  simp only [plain_result, hreversed, Trace.bind_eq_ok]
  exact ⟨top, htop, columns, hcolumns, frame, hframe, _, keys_reverseAll hkeys, rfl⟩

theorem core_reverseOrders [BEq σ] (hplain : (Shape.of s c).strategy = .plain)
    (hgroups : (Shape.of s c).groupsToLimit = false) (h : (sc.core s c).result = .ok q) :
    (sc.keys s.orders).result = .ok q.body.orders ∧
      (sc.core s.reverseOrders c).result = .ok q.reversed := by
  rw [core_result, hplain] at h
  rw [core_result, Shape.of_reverseOrders, hplain]
  simp only [Core.correlated_bind_result] at h ⊢
  exact plain_reverseOrders hgroups h

end Scope

/-- A level in the reverse order is the reversed query, and the order of the query is that of the
level without repetitions. -/
theorem SelectBody.compile_reverseOrders [BEq σ] {options : Options} {subquery : σ → Trace Query}
    (hshape : s.shape? options subquery = some sh) (hplain : sh.strategy = .plain)
    (hgroups : sh.groupsToLimit = false) (h : (s.compile options subquery).result = .ok q) :
    ∃ kept, ((s.scope options subquery).distinctKeys s.orders).result = .ok kept ∧
      ((s.scope options subquery).keys kept).result = .ok q.body.orders ∧
      (s.reverseOrders.compile options subquery).result = .ok q.reversed := by
  obtain ⟨kept, c, cores, hkept, hcores, hq⟩ := compile_eq_ok.1 h
  obtain rfl : Shape.of { s with orders := kept } c = sh := by
    rw [shape?, hcores, hkept] at hshape
    exact Option.some.inj hshape
  obtain ⟨hkeys, hreversed⟩ := Scope.core_reverseOrders hplain hgroups hq
  refine ⟨kept, hkept, hkeys, compile_eq_ok.2 ⟨SortKey.reverseAll kept, c, cores, ?_, hcores, ?_⟩⟩
  · rw [scope_reverseOrders, show s.reverseOrders.orders = SortKey.reverseAll s.orders from rfl,
      Scope.distinctKeys_reverseAll, ← bind_pure_comp]
    exact Trace.bind_eq_ok.2 ⟨kept, hkept, rfl⟩
  · rw [scope_reverseOrders]
    exact hreversed

end

/-! ## Texts -/

/-- The text of a level ends with its order. -/
theorem QueryBody.sql_eq_append_orders (collation : String) (q : QueryBody String) :
    q.sql collation = { q with orders := [] }.sql collation ++
      trailing "ORDER BY" ", " (q.orders.map (Key.sql collation)) := by
  rw [QueryBody.sql, join_append_clause _ _ _ (by simp), QueryBody.sql,
    join_append_clause _ _ _ (by simp)]
  simp [trailing]

/-- Up to its order a query has the same text in the reverse order. -/
theorem Query.sql_reversed (collation : String) (q : Query) :
    ∃ front, q.sql collation = front ++ trailing "ORDER BY" ", "
        (q.body.orders.map fun k => (k.map (Query.sql collation)).sql collation) ∧
      q.reversed.sql collation = front ++ trailing "ORDER BY" ", "
        ((q.body.orders.map Key.reversed).map fun k =>
          (k.map (Query.sql collation)).sql collation) := by
  refine ⟨({ q.body.map (Query.sql collation) with orders := [] }).sql collation, ?_, ?_⟩
  · rw [Query.sql_eq_body, QueryBody.sql_eq_append_orders]
    simp [QueryBody.map, Function.comp_def]
  · rw [Query.sql_eq_body, QueryBody.sql_eq_append_orders]
    simp [QueryBody.map, Query.reversed, Query.body, Function.comp_def]

/-- Sort keys are written as the texts of their expressions, each with its direction or, in the
reverse order, with the other one. -/
theorem Scope.exists_items {σ : Type} {sc : Scope σ} {ks : List (SortKey σ)}
    {ks' : List (Key Query)} (h : (sc.keys ks).result = .ok ks') :
    ∃ items : List (String × Direction),
      ks.map (fun k => (sc.text? k.expr, k.direction)) = items.map (fun i => (some i.1, i.2)) ∧
      (ks'.map fun k => (k.map (Query.sql sc.options.collation)).sql sc.options.collation) =
        items.map (fun i => i.1 ++ " " ++ i.2.keyword) ∧
      ((ks'.map Key.reversed).map fun k =>
        (k.map (Query.sql sc.options.collation)).sql sc.options.collation) =
          items.map (fun i => i.1 ++ " " ++ i.2.reversed.keyword) := by
  induction ks generalizing ks' with
  | nil =>
    obtain rfl := Except.ok.inj h
    exact ⟨[], rfl, rfl, rfl⟩
  | cons k ks ih =>
    simp only [keys, Trace.bind_eq_ok, Trace.pure_result, Except.ok.injEq] at h
    obtain ⟨e, he, rest, hrest, rfl⟩ := h
    obtain ⟨items, hks, htexts, hreversed⟩ := ih hrest
    refine ⟨(e.querySql sc.options.collation, k.direction) :: items, ?_, ?_, ?_⟩
    · rw [List.map_cons, List.map_cons, hks, text?_eq_some.2 ⟨e, he, rfl⟩]
    · rw [List.map_cons, List.map_cons, htexts]
      simp [Key.map, Key.sql, Expr.querySql, String.append_assoc]
    · rw [List.map_cons, List.map_cons, List.map_cons, hreversed]
      simp [Key.map, Key.sql, Key.reversed, Expr.querySql, String.append_assoc]

/-! ## Selects -/

namespace Select

/-- The select in the reverse order. -/
def reversed (s : Select) : Select := .of s.body.reverseOrders

/-- The shape by which a select is compiled. -/
def shape? (options : Options) (s : Select) : Option Shape :=
  (s.level options).shape? options Compiled.query

variable (options : Options) (s : Select)

theorem level_reversed : s.reversed.level options = (s.level options).reverseOrders :=
  s.body.map_reverseOrders (compiled options)

theorem scope_reversed : s.reversed.scope options = s.scope options := by
  rw [scope, scope, level_reversed, SelectBody.scope_reverseOrders]

theorem shape?_reversed : s.reversed.shape? options = s.shape? options := by
  rw [shape?, shape?, level_reversed, SelectBody.shape?_reverseOrders]

theorem strategy?_eq_map_shape? : s.strategy? options = (s.shape? options).map Shape.strategy :=
  SelectBody.strategy?_eq_map_shape?

/-- Both orders compile, or neither does. -/
theorem isOk_compile_reversed :
    (∃ q, (s.reversed.compile options).result = .ok q) ↔
      ∃ q, (s.compile options).result = .ok q := by
  rw [compile_eq, compile_eq, level_reversed]
  exact (SelectBody.alike_compile _ options Compiled.query).isOk_iff

/-- The latest posts, whose order comes back to its first column. -/
def latestPosts : Select :=
  .of
    { cores := [{ projections := [.named "title"], source := some (.table { name := "posts" }) }]
      orders := [(Expr.named "created").desc, (Expr.named "title").asc, (Expr.named "created").asc]
      limit := some (.int 3) }

end Select

end Transact
