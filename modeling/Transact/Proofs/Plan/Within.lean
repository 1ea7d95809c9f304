import Transact.Proofs.Plan.Builds
import Transact.Proofs.Plan.Lexicon

/-!
# Compilation stays within a lexicon

A select within a lexicon is compiled to a query within it, if the lexicon has what the compiler
brings in itself (`Lexicon.Serves`): its names, integers, its hint and `(SELECT NULL)`. The queries
after `IN` are those of the subqueries of the select.

* `Scope.within_expr`, `Scope.within_frame`: the operations of a scope stay within.
* `Scope.within_plain`, `Scope.within_count`, `Scope.within_distinctOrder`,
  `Scope.within_paginated`: one lemma for each strategy.
* `Select.within_compile`: the query of a select stays within, its derived tables included.
-/

set_option autoImplicit false

namespace Transact

variable {σ : Type} {sc : Scope σ} {lex : Lexicon} {p : σ → Prop}

/-- The lexicon has what the compiler brings in. -/
structure Lexicon.Serves (lex : Lexicon) (sc : Scope σ) : Prop where
  /-- a name of the compiler is also a qualifier -/
  synthetic : ∀ name ∈ sc.names.toList, lex.name name ∧ ∀ part ∈ nameParts name, lex.name part
  count : lex.name "count_id"
  integer : ∀ i, lex.constant (.integer i)
  unordered : lex.raw "(SELECT NULL)"
  hint : lex.verbatim sc.options.lockHint

@[simp] theorem SyntheticNames.mem_toList {n : SyntheticNames} {name : String} :
    name ∈ n.toList ↔ name = n.rowNumber ∨ name = n.numbered ∨ name = n.order ∨
      name = n.duplicate ∨ name = n.offset ∨ name = n.offsetRows ∨ name = n.ranked ∨
      name = n.one ∨ name = n.count := by
  simp [toList]

theorem Lexicon.Serves.name (hlex : lex.Serves sc) {n : String} (h : n ∈ sc.names.toList) :
    lex.name n :=
  (hlex.synthetic n h).1

theorem Lexicon.Serves.qualifier (hlex : lex.Serves sc) {n : String} (h : n ∈ sc.names.toList) :
    ∀ part ∈ nameParts n, lex.name part :=
  (hlex.synthetic n h).2

/-- The query is that of a subquery with `p`. -/
def Scope.QueryOf (sc : Scope σ) (p : σ → Prop) (q : Query) : Prop :=
  ∃ s, p s ∧ (sc.subquery s).result = .ok q

/-! ## The operations of a scope -/

namespace Scope

theorem operands_expr {e : Expr σ} {e' : Expr Query} (h : (sc.expr e).result = .ok e') :
    List.Forall₂ (fun o o' => (sc.expr o).result = .ok o') e.operands e'.operands := by
  cases e <;> simp only [expr, Expr.mapM, Trace.bind_eq_ok, Trace.pure_result, Except.ok.injEq] at h
  case column | wildcard | literal | typed | raw =>
    subst h
    exact .nil
  case aggregate | call =>
    obtain ⟨args, hargs, rfl⟩ := h
    exact exprs_eq_ok.1 hargs
  case «alias» | distinct | not | isNull | grouping | caseSensitive =>
    obtain ⟨e', he, rfl⟩ := h
    exact .cons he .nil
  case binary =>
    obtain ⟨l, hl, r, hr, rfl⟩ := h
    exact .cons hl (.cons hr .nil)
  case inList =>
    obtain ⟨e', he, list, hlist, rfl⟩ := h
    exact .cons he (exprs_eq_ok.1 hlist)
  case inSubquery =>
    obtain ⟨e', he, q, -, rfl⟩ := h
    exact .cons he .nil

theorem fits_expr {e : Expr σ} {e' : Expr Query} (h : (sc.expr e).result = .ok e')
    (hfits : e.Fits lex p) : e'.Fits lex (sc.QueryOf p) := by
  cases e <;> simp only [expr, Expr.mapM, Trace.bind_eq_ok, Trace.pure_result, Except.ok.injEq] at h
  case column | wildcard | literal | typed | raw =>
    subst h
    exact hfits
  case aggregate | call | «alias» | distinct | not | isNull | grouping | caseSensitive =>
    obtain ⟨_, -, rfl⟩ := h
    exact hfits
  case binary | inList =>
    obtain ⟨_, -, _, -, rfl⟩ := h
    exact hfits
  case inSubquery q _ =>
    obtain ⟨_, -, q', hq, rfl⟩ := h
    exact ⟨q, hfits, hq⟩

/-- **A compiled expression** stays within the lexicon. -/
theorem within_expr {e : Expr σ} {e' : Expr Query} (h : (sc.expr e).result = .ok e')
    (he : e.Within lex p) : e'.Within lex (sc.QueryOf p) := by
  refine Expr.Within.of_simulates (R := fun e e' => (sc.expr e).result = .ok e')
    (fun h => fits_expr h) (fun h o' ho' => ?_) h he
  obtain ⟨i, hi, rfl⟩ := List.mem_iff_getElem.1 ho'
  have hoperands := operands_expr h
  have hlen := hoperands.length_eq
  exact ⟨_, List.getElem_mem (by omega), hoperands.get (by omega) hi⟩

theorem within_exprs {es : List (Expr σ)} {es' : List (Expr Query)}
    (h : (sc.exprs es).result = .ok es') (hes : ∀ e ∈ es, e.Within lex p) :
    ∀ e ∈ es', e.Within lex (sc.QueryOf p) := by
  replace h := exprs_eq_ok.1 h
  induction h with
  | nil => simp
  | cons he _ ih =>
    intro e hmem
    rcases List.mem_cons.1 hmem with rfl | hmem
    · exact within_expr he (hes _ List.mem_cons_self)
    · exact ih (fun e he => hes e (List.mem_cons_of_mem _ he)) e hmem

theorem within_expr? {e : Option (Expr σ)} {e' : Option (Expr Query)}
    (h : (sc.expr? e).result = .ok e') (he : ∀ x ∈ e, x.Within lex p) :
    ∀ x ∈ e', x.Within lex (sc.QueryOf p) := by
  cases e with
  | none =>
    obtain rfl := Except.ok.inj h
    simp
  | some e =>
    obtain ⟨x, hx, h⟩ := Trace.bind_eq_ok.1 h
    obtain rfl := Except.ok.inj h
    rintro y ⟨⟩
    exact within_expr hx (he e rfl)

theorem within_keys : ∀ {ks : List (SortKey σ)} {ks' : List (Key Query)},
    (sc.keys ks).result = .ok ks' → (∀ k ∈ ks, k.expr.Within lex p) →
      ∀ k ∈ ks', k.expr.Within lex (sc.QueryOf p)
  | [], _, h, _ => by
    obtain rfl := Except.ok.inj h
    simp
  | k :: ks, _, h, hks => by
    obtain ⟨e, he, h⟩ := Trace.bind_eq_ok.1 h
    obtain ⟨rest, hrest, h⟩ := Trace.bind_eq_ok.1 h
    obtain rfl := Except.ok.inj h
    intro k' hk'
    rcases List.mem_cons.1 hk' with rfl | hk'
    · exact within_expr he (hks k List.mem_cons_self)
    · exact within_keys hrest (fun k hk => hks k (List.mem_cons_of_mem _ hk)) k' hk'

theorem within_window {ranking : Ranking} {partition : List (Expr σ)} {orders : List (SortKey σ)}
    {w : Window Query} (h : (sc.window ranking partition orders).result = .ok w)
    (hpartition : ∀ e ∈ partition, e.Within lex p) (horders : ∀ k ∈ orders, k.expr.Within lex p) :
    w.Within lex (sc.QueryOf p) := by
  obtain ⟨ps, ks, hps, hks, rfl⟩ := window_eq_ok.1 h
  exact ⟨within_exprs hps hpartition, within_keys hks horders⟩

theorem within_source : ∀ {s : Source σ} {s' : Source Query},
    (s.mapM sc.subquery).result = .ok s' → s.Within lex p → s'.Within lex (sc.QueryOf p)
  | .table _, _, h, hs => by
    obtain rfl := Except.ok.inj h
    exact hs
  | .raw _, _, h, hs => by
    obtain rfl := Except.ok.inj h
    exact hs
  | .join kind left right condition, s', h, ⟨hleft, hright, hcondition⟩ => by
    obtain ⟨left', hl, h⟩ := Trace.bind_eq_ok.1 h
    obtain ⟨right', hr, h⟩ := Trace.bind_eq_ok.1 h
    have hl := within_source hl hleft
    have hr := within_source hr hright
    -- a join without a condition, or one that does not use it
    have hbare : (.join kind left' right' none : Source Query) = s' →
        s'.Within lex (sc.QueryOf p) := by
      rintro rfl
      exact ⟨hl, hr, fun e he => by cases he⟩
    cases condition with
    | none => cases kind <;> exact hbare (Except.ok.inj h)
    | some condition =>
      cases kind with
      | cross | fragment => exact hbare (Except.ok.inj h)
      | inner | leftOuter | rightOuter | fullOuter =>
        obtain ⟨e, he, h⟩ := Trace.bind_eq_ok.1 h
        obtain rfl := Except.ok.inj h
        refine ⟨hl, hr, ?_⟩
        rintro _ ⟨⟩
        exact within_expr he (hcondition condition rfl)

variable {s : SelectBody σ} {c : Core σ} {q : Query}

theorem within_rows (hlex : lex.Serves sc) {rows : Option (Rows Query)}
    (h : (sc.rows c.source s.lock).result = .ok rows) (hs : s.Within lex p)
    (hc : c.Within lex p) : ∀ r ∈ rows, r.Within lex (sc.QueryOf p) := by
  cases hsource : c.source with
  | none =>
    rw [hsource] at h
    obtain rfl := Except.ok.inj h
    simp
  | some source =>
    rw [hsource] at h
    obtain ⟨source', hsource', h⟩ := Trace.bind_eq_ok.1 h
    obtain rfl := Except.ok.inj h
    rintro _ ⟨⟩
    refine ⟨within_source hsource' (hc.source source hsource), fun text htext => ?_⟩
    obtain ⟨lock, hlock, rfl⟩ := Option.map_eq_some_iff.1 htext
    cases lock with
    | default => exact hlex.hint
    | hint text => exact hs.lock text hlock

/-- A compiled frame stays within the lexicon. -/
theorem within_frame (hlex : lex.Serves sc) {groups : List (Expr σ)} {f : QueryBody Query}
    (h : (sc.frame s c groups).result = .ok f) (hs : s.Within lex p) (hc : c.Within lex p)
    (hgroups : ∀ e ∈ groups, e.Within lex p) :
    f.Within lex (sc.QueryOf p) ∧ ∀ q name, f.rows ≠ some (.derived q name) := by
  obtain ⟨rows, filters, groups', having, hrows, hfilters, hgroups', hhaving, rfl⟩ :=
    frame_eq_ok.1 h
  refine ⟨?_, rows_ne_derived hrows⟩
  constructor
  · simp
  · simp
  · exact within_rows hlex hrows hs hc
  · exact within_exprs hfilters hc.wheres
  · exact within_exprs hgroups' hgroups
  · exact within_expr? hhaving hc.having
  · simp

theorem within_projections (hlex : lex.Serves sc) {ps : List (Expr σ)}
    {columns : List (Column Query)} (h : (sc.projections ps).result = .ok columns)
    (hps : ∀ e ∈ ps, e.Within lex p) : ∀ c ∈ columns, c.Within lex (sc.QueryOf p) := by
  obtain ⟨es, hes, rfl⟩ := projections_eq_ok.1 h
  have hone : lex.name sc.names.one := hlex.name (by simp)
  have hall := within_exprs hes fun e he => by
    obtain ⟨e₀, he₀, rfl⟩ := List.mem_map.1 he
    split
    · exact Expr.within_alias.2 ⟨hone, hps e₀ he₀⟩
    · exact hps e₀ he₀
  intro column hcolumn
  obtain ⟨e, he, rfl⟩ := List.mem_map.1 hcolumn
  exact hall e he

end Scope

/-! ## What rows are numbered, ranked and grouped by -/

section

variable {s : SelectBody σ} {c : Core σ}

theorem within_pageKeys (hraw : lex.raw "(SELECT NULL)") (hs : s.Within lex p)
    (hc : c.Within lex p) : ∀ k ∈ pageKeys s.orders c.baseTable?, k.expr.Within lex p := by
  unfold pageKeys
  split
  case h_1 horders =>
    rw [← horders]
    exact hs.orders
  case h_2 hkey =>
    obtain ⟨t, ht, hkey⟩ := Option.bind_eq_some_iff.1 hkey
    intro k hk
    rw [List.mem_singleton.1 hk]
    exact hc.baseColumn ht (List.mem_append_left _ (by simp [hkey]))
  case h_3 hcolumn =>
    obtain ⟨t, ht, hcolumn⟩ := Option.bind_eq_some_iff.1 hcolumn
    intro k hk
    rw [List.mem_singleton.1 hk]
    exact hc.baseColumn ht (List.mem_append_right _ (List.mem_of_mem_head? hcolumn))
  case h_4 =>
    intro k hk
    rw [List.mem_singleton.1 hk]
    exact Expr.within_of_leaf rfl hraw

theorem Core.Within.identity (hc : c.Within lex p) {e : Expr σ} (he : e.Within lex p) :
    (c.identity e).Within lex p := by
  unfold Core.identity
  split
  · rename_i table base _ hbase
    split
    · cases hkey : base.keyColumn? with
      | none => exact he.unaliased
      | some key => exact hc.baseColumn hbase (List.mem_append_left _ (by simp [hkey]))
    · exact he.unaliased
  · exact he.unaliased

theorem Shape.within_rankable? {sh : Shape} (hc : c.Within lex p) {e r : Expr σ}
    (he : e.Within lex p) (h : sh.rankable? c.baseTable? e = some r) : r.Within lex p := by
  have hbuilt : ((if sh.hasCall then e.unmarked else e.bare).unaliased).Within lex p := by
    split
    · exact he.unmarked.unaliased
    · exact he.bare.unaliased
  unfold Shape.rankable? at h
  simp only at h
  split at h
  · rename_i table base _ hbase
    split at h
    · obtain ⟨key, hkey, rfl⟩ := Option.map_eq_some_iff.1 h
      exact hc.baseColumn hbase (List.mem_append_left _ (by simp [hkey]))
    · cases h
  · cases h
  · obtain rfl := Option.some.inj h
    exact hbuilt

theorem Shape.within_denseKeys [BEq σ] {sh : Shape} {keys : List (SortKey σ)}
    (hraw : lex.raw "(SELECT NULL)") (hs : s.Within lex p) (hc : c.Within lex p)
    (h : (sh.denseKeys s c).result = .ok keys) : ∀ k ∈ keys, k.expr.Within lex p := by
  unfold Shape.denseKeys at h
  simp only at h
  split at h
  · obtain ⟨_, -, h⟩ := Trace.bind_eq_ok.1 h
    rw [s.rowKeys_result] at h
    obtain rfl := Except.ok.inj h
    exact within_pageKeys hraw hs hc
  · obtain rfl := Except.ok.inj h
    -- the keys grow by one projection at a time
    refine List.foldlRecOn c.projections _
      (motive := fun keys : List (SortKey σ) => ∀ k ∈ keys, k.expr.Within lex p) hs.orders
      fun keys hkeys e he => ?_
    split
    · rename_i r hr
      split
      · exact hkeys
      · refine List.forall_mem_append.2 ⟨hkeys, List.forall_mem_singleton.2 ?_⟩
        exact Shape.within_rankable? hc (hc.projections e he) hr
    · exact hkeys

theorem Shape.within_numberedProjections (sh : Shape) (hc : c.Within lex p) :
    ∀ e ∈ sh.numberedProjections c, e.Within lex p := by
  unfold Shape.numberedProjections
  split
  · exact hc.projections
  · intro e he
    obtain ⟨e₀, he₀, rfl⟩ := List.mem_map.1 he
    exact (hc.projections e₀ he₀).bare

theorem Shape.within_numberedGroups [BEq σ] (sh : Shape) (hs : s.Within lex p)
    (hc : c.Within lex p) : ∀ e ∈ sh.numberedGroups s c, e.Within lex p := by
  unfold Shape.numberedGroups
  split
  · intro e he
    rcases (Expr.mem_columnsForDistinct _ _).2 he with he | he
    · split at he
      · obtain ⟨e₀, he₀, rfl⟩ := List.mem_map.1 he
        exact (sh.within_numberedProjections hc e₀ he₀).bare.unaliased
      · exact hc.groups e he
    · obtain ⟨k, hk, rfl⟩ := List.mem_map.1 he
      exact hs.orders k hk
  · exact hc.groups

theorem SelectBody.Within.boundedLimit? [BEq σ] (hs : s.Within lex p) :
    ∀ e ∈ s.boundedLimit?, e.Within lex p := by
  intro e he
  exact hs.limit e (Option.filter_eq_some_iff.1 he).1

theorem SelectBody.Within.countLimit? (hint : ∀ i, lex.constant (.integer i))
    (hs : s.Within lex p) : ∀ e ∈ s.countLimit?, e.Within lex p := by
  unfold SelectBody.countLimit?
  split
  · rename_i limit offset hlimit hoffset
    rintro _ ⟨⟩
    exact (hs.limit limit hlimit).plus hint (hs.offset offset hoffset)
  · exact hs.limit

theorem SortKey.within_extreme {k : SortKey σ} (hk : k.expr.Within lex p) :
    k.extreme.expr.Within lex p := by
  refine Expr.within_aggregate.2 fun e he => ?_
  rw [List.mem_singleton.1 he]
  exact hk.bare.unaliased

end

/-! ## The strategies -/

namespace Scope

variable {s : SelectBody σ} {c : Core σ} {q : Query}

theorem within_arrangement (sh : Shape) (hs : s.Within lex p) (hc : c.Within lex p) :
    (∀ e ∈ (sh.plainArrangement s c).projections, e.Within lex p) ∧
      (∀ e ∈ (sh.plainArrangement s c).groups, e.Within lex p) ∧
      ∀ k ∈ (sh.plainArrangement s c).orders, k.expr.Within lex p := by
  have hbare : ∀ e ∈ c.projections.map Expr.bare, e.Within lex p :=
    List.forall_mem_map.2 fun e he => (hc.projections e he).bare
  unfold Shape.plainArrangement
  split
  · exact ⟨hbare, List.forall_mem_map.2 fun e he => (hbare e he).unaliased,
      List.forall_mem_map.2 fun k hk => SortKey.within_extreme (hs.orders k hk)⟩
  · split
    · exact ⟨hbare, hc.groups, hs.orders⟩
    · exact ⟨hc.projections, hc.groups, hs.orders⟩

/-- The query of a plain select stays within the lexicon. -/
theorem within_plain (hlex : lex.Serves sc) {sh : Shape} (hs : s.Within lex p)
    (hc : c.Within lex p) (h : (sc.plain sh s c).result = .ok q) :
    q.Within lex (sc.QueryOf p) := by
  obtain ⟨hprojections, hgroups, horders⟩ := within_arrangement sh hs hc
  have hhead : ∀ (ps : List (Expr σ)), (∀ e ∈ ps, e.Within lex p) →
      ∀ e ∈ ps.modifyHead Expr.unmarked, e.Within lex p := by
    rintro (_ | ⟨e, ps⟩) hps e' he'
    · exact hps e' he'
    · rcases List.mem_cons.1 he' with rfl | he'
      · exact (hps e List.mem_cons_self).unmarked
      · exact hps e' (List.mem_cons_of_mem _ he')
  obtain ⟨top, columns, frame, orders, distinct, ps, hps, htop, hcolumns, hframe, horders', rfl⟩ :=
    plain_builds h
  obtain ⟨hown, hrows⟩ := within_frame hlex hframe hs hc hgroups
  refine .of { hown with top := ?_, columns := List.forall_mem_singleton.2 ?_, orders := ?_ }
    fun q name hq => absurd hq (hrows q name)
  · exact within_expr? htop hs.limit
  · rcases hps with rfl | rfl
    · exact within_projections hlex hcolumns hprojections
    · exact within_projections hlex hcolumns (hhead _ hprojections)
  · exact within_keys horders' horders

theorem within_pastOffset (hlex : lex.Serves sc) {offset : Option (Expr Query)}
    {p : Query → Prop} (h : ∀ e ∈ offset, e.Within lex p) :
    ∀ e ∈ sc.names.pastOffset offset, e.Within lex p := by
  intro e he
  obtain ⟨m, hm, rfl⟩ := List.mem_map.1 he
  exact Expr.within_binary.2
    ⟨Expr.within_qualified (hlex.qualifier (by simp)) (hlex.name (by simp)),
      Expr.within_grouping.2 (h m (Option.mem_toList.1 hm))⟩

/-- The query of a count stays within the lexicon. -/
theorem within_count (hlex : lex.Serves sc) (hs : s.Within lex p) (hc : c.Within lex p)
    (h : (sc.count s c).result = .ok q) : q.Within lex (sc.QueryOf p) := by
  obtain ⟨top, offset, window, frame, orders, htop, hwindow, hframe, horders, hoffset, rfl⟩ :=
    count_builds h
  obtain ⟨hown, hrows⟩ := within_frame hlex hframe hs hc hc.groups
  have hwindow := within_window hwindow (by simp) (within_pageKeys hlex.unordered hs hc)
  have hnumbered : (Query.of { frame with
      top := top
      columns := [[.ranked window sc.names.rowNumber, .expr (.alias (.int 1) sc.names.count)]]
      orders := orders }).Within lex (sc.QueryOf p) := by
    refine .of { hown with top := ?_, columns := List.forall_mem_singleton.2 ?_, orders := ?_ }
      fun q name hq => absurd hq (hrows q name)
    · exact within_expr? htop (hs.countLimit? hlex.integer)
    · refine List.forall_mem_cons.2
        ⟨⟨hwindow, hlex.name (by simp)⟩, List.forall_mem_singleton.2 ?_⟩
      exact Expr.within_alias.2 ⟨hlex.name (by simp), Expr.within_int (hlex.integer _)⟩
    · exact within_keys horders hs.orders
  have hcount : (Expr.alias (.countOf [.named sc.names.count]) "count_id" : Expr Query).Within lex
      (sc.QueryOf p) :=
    Expr.within_alias.2 ⟨hlex.count, Expr.within_aggregate.2
      (List.forall_mem_singleton.2 (Expr.within_named (hlex.name (by simp))))⟩
  exact hnumbered.around rfl
    { top := by simp
      columns := List.forall_mem_singleton.2 (List.forall_mem_singleton.2 hcount)
      rows := Rows.within_derived (hlex.name (by simp))
      filters := within_pastOffset hlex (within_expr? hoffset hs.offset)
      groups := by simp
      having := by simp
      orders := by simp }

/-- The query of distinct rows in a foreign order stays within the lexicon. -/
theorem within_distinctOrder (hlex : lex.Serves sc) (hs : s.Within lex p) (hc : c.Within lex p)
    (h : (sc.distinctOrder s c).result = .ok q) : q.Within lex (sc.QueryOf p) := by
  have hunmarked : ∀ e ∈ c.projections.map Expr.unmarked, e.Within lex p :=
    List.forall_mem_map.2 fun e he => (hc.projections e he).unmarked
  obtain ⟨columns, outer, rank, duplicate, frame, top, offset, hcolumns, hrank, hduplicate, hframe,
    houter, htop, hoffset, rfl⟩ := distinctOrder_builds h
  obtain ⟨hown, hrows⟩ := within_frame hlex hframe hs hc hc.groups
  have hcolumns := within_exprs hcolumns hunmarked
  have hrank := within_window hrank (by simp) hs.orders
  have hduplicate := within_window hduplicate
    (List.forall_mem_map.2 fun e he => hc.identity (hunmarked e he)) hs.orders
  have houter : ∀ column ∈ outer.map Column.expr, column.Within lex (sc.QueryOf p) :=
    List.forall_mem_map.2 (within_exprs houter
      (List.forall_mem_map.2 fun e he => (hunmarked e he).outerName))
  have htop := within_expr? htop hs.limit
  have hoffset := within_expr? hoffset hs.offset
  have hordered : (Expr.named sc.names.order : Expr Query).Within lex (sc.QueryOf p) :=
    Expr.within_named (hlex.name (by simp))
  have hfirst : (Expr.equals (.named sc.names.duplicate) (.int 1) : Expr Query).Within lex
      (sc.QueryOf p) :=
    Expr.within_binary.2
      ⟨Expr.within_named (hlex.name (by simp)), Expr.within_int (hlex.integer _)⟩
  have hranked : (rankedRows sc.names frame columns rank duplicate).Within lex
      (sc.QueryOf p) := by
    refine .of { hown with columns := ?_ } fun q name hq => absurd hq (hrows q name)
    refine List.forall_mem_cons.2 ⟨List.forall_mem_map.2 hcolumns, List.forall_mem_singleton.2 ?_⟩
    exact List.forall_mem_cons.2 ⟨⟨hrank, hlex.name (by simp)⟩,
      List.forall_mem_singleton.2 ⟨hduplicate, hlex.name (by simp)⟩⟩
  cases offset with
  | none =>
    exact hranked.around rfl
      { top := htop
        columns := List.forall_mem_singleton.2 (List.forall_mem_append.2
          ⟨houter, List.forall_mem_singleton.2 hordered⟩)
        rows := Rows.within_derived (hlex.name (by simp))
        filters := List.forall_mem_singleton.2 hfirst
        groups := by simp
        having := by simp
        orders := List.forall_mem_singleton.2 hordered }
  | some offset =>
    have hnumber : (Expr.named sc.names.offset : Expr Query).Within lex (sc.QueryOf p) :=
      Expr.within_named (hlex.name (by simp))
    have hwindow : (Column.ranked ⟨.rowNumber, [], [⟨.named sc.names.order, none⟩]⟩
        sc.names.offset : Column Query).Within lex (sc.QueryOf p) :=
      ⟨⟨by simp, List.forall_mem_singleton.2 hordered⟩, hlex.name (by simp)⟩
    refine Query.Within.around (hranked.around rfl
      { top := by simp
        columns := List.forall_mem_singleton.2 (List.forall_mem_append.2
          ⟨houter, List.forall_mem_singleton.2 hwindow⟩)
        rows := Rows.within_derived (hlex.name (by simp))
        filters := List.forall_mem_singleton.2 hfirst
        groups := by simp
        having := by simp
        orders := by simp }) rfl
      { top := htop
        columns := List.forall_mem_singleton.2 (List.forall_mem_singleton.2 Expr.within_star)
        rows := Rows.within_derived (hlex.name (by simp))
        filters := List.forall_mem_singleton.2 ?_
        groups := by simp
        having := by simp
        orders := List.forall_mem_singleton.2 hnumber }
    exact Expr.within_binary.2 ⟨hnumber, hoffset offset rfl⟩

theorem within_outerReference (hlex : lex.Serves sc) {e : Expr σ} (he : e.Within lex p) :
    (sc.outerReference c e).Within lex p := by
  unfold Scope.outerReference
  split
  · rename_i name halias
    obtain ⟨e', he'⟩ := Expr.alias?_eq_some.1 halias
    have := he.unmarked
    rw [he'] at this
    exact Expr.within_qualified (hlex.qualifier (by simp)) (Expr.within_alias.1 this).1
  · exact he.unmarked.requalify (hlex.qualifier (by simp))

theorem within_outerColumns (hlex : lex.Serves sc) {sh : Shape} (hc : c.Within lex p)
    {outer : List (Expr Query)} (h : (sc.outerColumns sh c).result = .ok outer) :
    ∀ e ∈ outer, e.Within lex (sc.QueryOf p) := by
  obtain ⟨ps, hps, h⟩ := Trace.bind_eq_ok.1 h
  refine within_exprs h fun e he => ?_
  unfold Scope.outerProjections at hps
  split at hps
  · obtain rfl := Except.ok.inj hps
    obtain ⟨e₀, he₀, rfl⟩ := List.mem_map.1 he
    exact within_outerReference hlex (hc.projections e₀ he₀)
  · split at hps
    · obtain rfl := Except.ok.inj hps
      obtain ⟨name, hname, rfl⟩ := List.mem_map.1 he
      obtain ⟨e₀, he₀, halias⟩ := List.mem_filterMap.1 hname
      obtain ⟨e', rfl⟩ := Expr.alias?_eq_some.1 halias
      exact Expr.within_named (Expr.within_alias.1 (hc.projections _ he₀)).1
    · split at hps
      · split at hps
        · rename_i column rest hprojections
          obtain rfl := Except.ok.inj hps
          rw [List.mem_singleton.1 he]
          have hcolumn := hc.projections (.column column)
            (by rw [hprojections]; exact List.mem_cons_self)
          exact Expr.within_qualified (hlex.qualifier (by simp))
            (hcolumn.fits _ (List.mem_append_right _ (List.mem_singleton_self _)))
        · cases hps
      · obtain rfl := Except.ok.inj hps
        rw [List.mem_singleton.1 he]
        exact Expr.within_allOf (hlex.qualifier (by simp))

/-- The query of a paginated select stays within the lexicon. -/
theorem within_paginated [BEq σ] (hlex : lex.Serves sc) {sh : Shape} (hs : s.Within lex p)
    (hc : c.Within lex p) (h : (sc.paginated sh s c).result = .ok q) :
    q.Within lex (sc.QueryOf p) := by
  obtain ⟨keys, top, offset, outer, ranking, window, columns, frame, hkeys, htop, houter, hwindow,
    hcolumns, hframe, hoffset, rfl⟩ := paginated_builds h
  obtain ⟨hown, hrows⟩ := within_frame hlex hframe hs hc (sh.within_numberedGroups hs hc)
  have hkeys : ∀ k ∈ keys, k.expr.Within lex p := by
    rcases hkeys with hkeys | hkeys
    · exact Shape.within_denseKeys hlex.unordered hs hc hkeys
    · rw [s.rowKeys_result] at hkeys
      obtain rfl := Except.ok.inj hkeys
      exact within_pageKeys hlex.unordered hs hc
  have hinner : (Query.of { frame with
      distinct := c.distinct
      columns := [[.ranked window sc.names.rowNumber], columns] }).Within lex (sc.QueryOf p) := by
    refine .of { hown with columns := ?_ } fun q name hq => absurd hq (hrows q name)
    refine List.forall_mem_cons.2 ⟨List.forall_mem_singleton.2 ?_, List.forall_mem_singleton.2 ?_⟩
    · exact ⟨within_window hwindow (by simp) hkeys, hlex.name (by simp)⟩
    · exact within_projections hlex hcolumns (sh.within_numberedProjections hc)
  exact hinner.around rfl
    { top := within_expr? htop hs.boundedLimit?
      columns := List.forall_mem_singleton.2
        (List.forall_mem_map.2 (within_outerColumns hlex hc houter))
      rows := Rows.within_derived (hlex.name (by simp))
      filters := within_pastOffset hlex (within_expr? hoffset hs.offset)
      groups := by simp
      having := by simp
      orders := List.forall_mem_singleton.2
        (Expr.within_qualified (hlex.qualifier (by simp)) (hlex.name (by simp))) }

/-- **The query of a core** stays within the lexicon, whichever its strategy. -/
theorem within_core [BEq σ] (hlex : lex.Serves sc) (hs : s.Within lex p) (hc : c.Within lex p)
    (h : (sc.core s c).result = .ok q) : q.Within lex (sc.QueryOf p) := by
  have h := core_eq_ok h
  cases hstrategy : (Shape.of s c).strategy with
  | count =>
    rw [hstrategy] at h
    exact within_count hlex hs hc h
  | distinctOrder =>
    rw [hstrategy] at h
    exact within_distinctOrder hlex hs hc h
  | paginated =>
    rw [hstrategy] at h
    exact within_paginated hlex hs hc.correlated h
  | plain =>
    rw [hstrategy] at h
    exact within_plain hlex hs hc.correlated h

end Scope

/-! ## Selects -/

/-- **The query of a select** stays within a lexicon that the select is within. The queries after
`IN` are those of its subqueries. -/
theorem Select.within_compile {options : Options} {s : Select} {q : Query} {p : Select → Prop}
    (hlex : lex.Serves (s.scope options)) (hs : s.body.Within lex p)
    (h : (s.compile options).result = .ok q) :
    q.Within lex fun r => ∃ sub, p sub ∧ (sub.compile options).result = .ok r := by
  let compiledOf : Compiled → Prop := fun x => ∃ sub, p sub ∧ x = sub.compiled options
  have hlevel : (s.level options).Within lex compiledOf :=
    hs.map fun sub hsub => ⟨sub, hsub, rfl⟩
  rw [compile_eq] at h
  obtain ⟨orders, c, cores, horders, hcores, h⟩ := SelectBody.compile_eq_ok.1 h
  have hsorted : ({ s.level options with orders := orders } : SelectBody Compiled).Within lex
      compiledOf :=
    { hlevel with orders := fun k hk =>
        hlevel.orders k ((s.scope options).distinctKeys_subset horders hk) }
  have hcore := hlevel.cores c (by rw [hcores]; exact List.mem_cons_self)
  have hq : (s.scope options).QueryOf compiledOf =
      fun r => ∃ sub, p sub ∧ (sub.compile options).result = .ok r := by
    funext r
    apply propext
    constructor
    · rintro ⟨_, ⟨sub, hsub, rfl⟩, hr⟩
      exact ⟨sub, hsub, hr⟩
    · rintro ⟨sub, hsub, hr⟩
      exact ⟨sub.compiled options, ⟨sub, hsub, rfl⟩, hr⟩
  rw [← hq]
  exact Scope.within_core hlex hsorted hcore h

/-! ## Updates -/

/-- The parts of the update are within the lexicon, and the select of its keys satisfies `p`. -/
structure Update.Within (lex : Lexicon) (p : Select → Prop) (u : Update) : Prop where
  table : u.table.Within lex
  values : ∀ v ∈ u.values, (∀ n ∈ v.1.path, lex.name n) ∧ v.2.Within lex p
  wheres : ∀ e ∈ u.wheres, e.Within lex p
  limit : ∀ e ∈ u.limit, e.Within lex p
  key : ∀ key ∈ u.keyColumn?, (∀ n ∈ key.path, lex.name n) ∧ p (u.guarded.keySelect key)

/-- The columns of an update: those that are set, and the one that tells rows apart. -/
def Update.columns (u : Update) : List ColumnRef := u.values.map Prod.fst ++ u.keyColumn?.toList

/-- The parts of a compiled update are within the lexicon. -/
structure UpdateQuery.Within (lex : Lexicon) (p : Query → Prop) (u : UpdateQuery) : Prop where
  top : ∀ e ∈ u.top, e.Within lex p
  table : u.table.Within lex
  values : ∀ v ∈ u.values, (∀ n ∈ v.1.path, lex.name n) ∧ v.2.Within lex p
  filters : ∀ e ∈ u.filters, e.Within lex p

namespace Update

variable {options : Options} {u : Update} {uq : UpdateQuery} {p : Select → Prop}

/-- An update is within a lexicon when its expressions, its columns and its table are. -/
theorem within_of_exprs (htable : u.table.Within lex) (hexprs : ∀ e ∈ u.exprs, e.Within lex p)
    (hcolumns : ∀ c ∈ u.columns, ∀ n ∈ c.path, lex.name n)
    (hkey : ∀ key ∈ u.keyColumn?, p (u.guarded.keySelect key)) : u.Within lex p := by
  simp only [exprs, columns, List.forall_mem_append, List.forall_mem_map, Option.mem_toList]
    at hexprs hcolumns
  obtain ⟨⟨⟨hvalues, hwheres⟩, -⟩, hlimit⟩ := hexprs
  exact ⟨htable, fun v hv => ⟨hcolumns.1 v hv, hvalues v hv⟩, hwheres, hlimit,
    fun key hk => ⟨hcolumns.2 key hk, hkey key hk⟩⟩

/-- The expressions of the select of the keys are those of the update, the key, and the limit that
stands for none. -/
theorem mem_exprs_keySelect {key : ColumnRef} {e : Expr Select}
    (h : e ∈ (u.guarded.keySelect key).body.exprs) :
    e = .column key ∨ e ∈ u.exprs ∨ e = .int unboundedLimit := by
  simp only [Select.body, keySelect, SelectBody.exprs, Core.exprs, Source.conditions,
    List.flatMap_cons, List.flatMap_nil, Option.toList_some, Option.toList_none, List.append_nil,
    List.mem_append, List.mem_singleton, wheres_guarded, orders_guarded] at h
  simp only [exprs, List.mem_append]
  rcases h with ((rfl | he) | he) | he
  · exact .inl rfl
  · exact .inr (.inl (.inl (.inl (.inr he))))
  · exact .inr (.inl (.inl (.inr he)))
  · rcases u.limit_guarded with hlimit | hlimit
    · rw [hlimit] at he
      exact .inr (.inl (.inr he))
    · rw [hlimit] at he
      exact .inr (.inr (List.mem_singleton.1 he))

/-- The select of the keys is within a lexicon when the update is. -/
theorem within_keySelect (hinteger : ∀ i, lex.constant (.integer i)) (htable : u.table.Within lex)
    (hexprs : ∀ e ∈ u.exprs, e.Within lex p) {key : ColumnRef} (hkey : ∀ n ∈ key.path, lex.name n) :
    (u.guarded.keySelect key).body.Within lex p := by
  refine SelectBody.within_of_exprs (fun e he => ?_) (fun source hsource => ?_)
    fun _ h => by cases h
  · rcases mem_exprs_keySelect he with rfl | he | rfl
    · exact Expr.within_of_leaf rfl hkey
    · exact hexprs e he
    · exact Expr.within_int (hinteger _)
  · obtain rfl : source = .table u.guarded.table := by
      simpa [Select.body, keySelect] using hsource
    rw [table_guarded]
    exact ⟨fun t ht => by rwa [List.mem_singleton.1 ht], fun h => by cases h⟩

theorem within_compileValues : ∀ {values : List (ColumnRef × Expr Select)}
    {values' : List (ColumnRef × Expr Query)},
    (compileValues options values).result = .ok values' →
      (∀ v ∈ values, (∀ n ∈ v.1.path, lex.name n) ∧ v.2.Within lex p) →
      ∀ v ∈ values', (∀ n ∈ v.1.path, lex.name n) ∧ v.2.Within lex ((scope options).QueryOf p)
  | [], _, h, _ => by
    obtain rfl := Except.ok.inj h
    simp
  | (column, e) :: rest, _, h, hvalues => by
    obtain ⟨e', he, h⟩ := Trace.bind_eq_ok.1 h
    obtain ⟨rest', hrest, h⟩ := Trace.bind_eq_ok.1 h
    obtain rfl := Except.ok.inj h
    obtain ⟨hcolumn, hexpr⟩ := hvalues _ List.mem_cons_self
    intro v hv
    rcases List.mem_cons.1 hv with rfl | hv
    · exact ⟨hcolumn, (scope options).within_expr he hexpr⟩
    · exact within_compileValues hrest
        (fun v hv => hvalues v (List.mem_cons_of_mem _ hv)) v hv

theorem Within.conditions (hu : u.Within lex p) :
    ∀ e ∈ u.guarded.conditions, e.Within lex p := by
  unfold Update.conditions
  rw [keyColumn?_guarded, wheres_guarded]
  cases hkey : u.keyColumn? with
  | none => exact hu.wheres
  | some key =>
    obtain ⟨hnames, hselect⟩ := hu.key key hkey
    simp only
    split
    · intro e he
      rw [List.mem_singleton.1 he]
      refine Expr.within_iff.2 ⟨hselect, fun x hx => ?_⟩
      rw [List.mem_singleton.1 hx]
      exact Expr.within_of_leaf rfl hnames
    · exact hu.wheres

/-- **A compiled update** stays within a lexicon that the update is within. -/
theorem within_compile (hinteger : ∀ i, lex.constant (.integer i)) (hu : u.Within lex p)
    (h : (u.compile options).result = .ok uq) :
    uq.Within lex fun r => ∃ sub, p sub ∧ (sub.compile options).result = .ok r := by
  obtain ⟨htop, htable, hvalues, hfilters⟩ := builds h
  refine ⟨Scope.within_expr? htop ?_, by rw [htable]; exact hu.table,
    within_compileValues hvalues hu.values,
    Scope.within_exprs hfilters hu.conditions⟩
  unfold ownLimit?
  split
  · intro e he
    have he := (Option.filter_eq_some_iff.1 he).1
    unfold guarded at he
    split at he
    · obtain rfl := Option.some.inj he
      exact Expr.within_int (hinteger _)
    · exact hu.limit e he
  · simp

end Update

end Transact
