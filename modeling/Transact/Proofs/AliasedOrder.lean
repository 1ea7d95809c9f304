import Transact.Proofs.DenseRank
import Transact.Proofs.DistinctColumns
import Transact.Proofs.Limit
import Transact.Proofs.WindowOrder

/-!
# Orders by an alias

An order may name the alias of a projection. Where the order becomes that of a window, or is added
to the groups, the server does not know the alias. `Select.Resolves` says that keys have the aliased
expression for it.

* `Scope.exists_distinctKeys_text`: freed of repetitions, an order has the same texts.
* `Shape.orders_subset_keys`: the keys of a page have the order of the select among them, as it
  stands.
* `Select.keepsAlias_page`: so an alias is resolved only when the aliased expression is written like
  it.
-/

set_option autoImplicit false

namespace Transact

open Text (lower)

section

variable {σ : Type} {sc : Scope σ} {s : SelectBody σ} {c : Core σ}

/-! ## Texts of keys -/

namespace Scope

theorem text?_named (sc : Scope σ) (n : String) : sc.text? (.named n) = some (Sql.name n) :=
  text?_eq_some.2 ⟨.named n, expr_column ⟨none, n⟩, rfl⟩

/-- **Without repetitions** an order has the same texts. -/
theorem exists_distinctKeys_text {keys kept : List (SortKey σ)}
    (h : (sc.distinctKeys keys).result = .ok kept) {k : SortKey σ} (hk : k ∈ keys) {text : String}
    (htext : sc.text? k.expr = some text) : ∃ k' ∈ kept, sc.text? k'.expr = some text := by
  have hfound : (keys.find? fun k => sc.text? k.expr == some text).isSome = true := by
    rw [List.find?_isSome]
    exact ⟨k, hk, by simp [htext]⟩
  rw [← (unrepeated_distinctKeys h).first text] at hfound
  obtain ⟨k', hk'⟩ := Option.isSome_iff_exists.1 hfound
  exact ⟨k', List.mem_of_find?_eq_some hk', by simpa using List.find?_some hk'⟩

theorem mem_texts_of_exprs {es : List (Expr σ)} {es' : List (Expr Query)}
    (h : (sc.exprs es).result = .ok es') {e : Expr σ} (he : e ∈ es) {text : String}
    (htext : sc.text? e = some text) : text ∈ es'.map (Expr.querySql sc.options.collation) := by
  obtain ⟨e', he', hexpr⟩ := exists_of_mem_left h he
  obtain ⟨e'', hexpr', rfl⟩ := text?_eq_some.1 htext
  obtain rfl : e' = e'' := Except.ok.inj (hexpr.symm.trans hexpr')
  exact List.mem_map_of_mem he'

end Scope

/-! ## Keys of a page -/

theorem subset_pageKeys (orders : List (SortKey σ)) (base : Option TableRef) :
    orders ⊆ pageKeys orders base := by
  cases orders with
  | nil => exact List.nil_subset _
  | cons k ks => exact List.Subset.refl _

/-- **The order of the select** is among the keys of a page, as it stands. -/
theorem Shape.orders_subset_keys [BEq σ] {sh : Shape} {keys : List (SortKey σ)}
    (h : (sh.denseKeys s c).result = .ok keys ∨ (s.rowKeys c).result = .ok keys) :
    s.orders ⊆ keys := by
  rcases h with h | h
  · have hfold := sh.subset_foldl c.baseTable? c.projections s.orders
    by_cases hkeys : c.projections.foldl (sh.withProjection c.baseTable?) s.orders = []
    · rw [hkeys] at hfold
      rw [List.subset_nil.1 hfold]
      exact List.nil_subset _
    · rw [sh.denseKeys_result_eq s c hkeys] at h
      rw [← Except.ok.inj h]
      exact hfold
  · rw [s.rowKeys_result] at h
    rw [← Except.ok.inj h]
    exact subset_pageKeys _ _

theorem Expr.eq_named_of_beq [BEq σ] {n : String} {e : Expr σ} (h : (.named n == e) = true) :
    e = .named n := by
  cases e with
  | column c =>
    have hc : (ColumnRef.mk none n == c) = true := h
    rw [← eq_of_beq hc]
    rfl
  | _ => cases h

/-- A name that the order has is among the groups of a single distinct projection. -/
theorem Shape.named_mem_numberedGroups [BEq σ] {sh : Shape} (hsingle : sh.singleDistinct = true)
    {k : SortKey σ} (hk : k ∈ s.orders) {n : String} (hn : k.expr = .named n) :
    .named n ∈ sh.numberedGroups s c := by
  have hself : (k.expr == k.expr) = true := by
    rw [hn]
    exact beq_self_eq_true (ColumnRef.mk none n)
  rw [numberedGroups, if_pos hsingle]
  obtain ⟨e, he, hbeq⟩ := List.contains_iff_exists_mem_beq.1
    (Expr.contains_columnsForDistinct_of_beq_self hself hk)
  rw [hn] at hbeq
  rwa [← Expr.eq_named_of_beq hbeq]

/-- The page has one window, over the keys of the page. -/
theorem Scope.paginated_page [BEq σ] {sh : Shape} {q : Query}
    (h : (sc.paginated sh s c).result = .ok q) :
    ∃ page window keys, q.body.rows = some (.derived page sc.names.numbered) ∧
      page.windows = [window] ∧
      ((sh.denseKeys s c).result = .ok keys ∨ (s.rowKeys c).result = .ok keys) ∧
      (sc.exprs (keys.map (·.expr))).result = .ok (window.orders.map (·.expr)) ∧
      (sc.exprs (sh.numberedGroups s c)).result = .ok page.body.groups := by
  obtain ⟨keys, top, offset, outer, ranking, window, columns, frame, hkeys, -, -, hwindow,
    hcolumns, hframe, -, rfl⟩ := paginated_builds h
  obtain ⟨partition, orders, -, horders, rfl⟩ := window_eq_ok.1 hwindow
  have hgroups := groups_frame hframe
  refine ⟨_, ⟨ranking, partition, orders⟩, keys, rfl, ?_, hkeys, exprs_of_keys horders, hgroups⟩
  simp [Query.windows, Query.body, window?_projections hcolumns]

/-- The expression is that of a projection with this alias, in letters of either case. -/
def Core.Aliases (c : Core σ) (n : String) (e : Expr σ) : Prop :=
  ∃ p ∈ c.projections, ∃ a, p.unmarked.alias? = some a ∧ lower a = lower n ∧
    e = p.unmarked.unaliased

end

/-! ## Selects -/

namespace Select

variable {options : Options} {s : Select} {c : Core Select} {q : Query}

/-- The keys have the expression in place of the name: its text is among theirs, and that of the
name is not, unless it is the same. -/
def Resolves (options : Options) (s : Select) (keys : List (Expr Query)) (n : String)
    (e : Expr Select) : Prop :=
  ∃ text, s.textOf options e = .ok text ∧
    text ∈ keys.map (Expr.querySql options.collation) ∧
      (Sql.name n ∈ keys.map (Expr.querySql options.collation) → text = Sql.name n)

/-- The keys have the name as it stands, so they have an expression with this alias in place of it
only if that is written like the name. -/
def KeepsAlias (options : Options) (s : Select) (c : Core Select) (keys : List (Expr Query))
    (n : String) : Prop :=
  Sql.name n ∈ keys.map (Expr.querySql options.collation) ∧
    ∀ e, c.Aliases n e →
      (s.Resolves options keys n e ↔ s.textOf options e = .ok (Sql.name n))

theorem keepsAlias_of_mem (c : Core Select) {keys : List (Expr Query)} {n : String}
    (h : Sql.name n ∈ keys.map (Expr.querySql options.collation)) :
    s.KeepsAlias options c keys n := by
  refine ⟨h, fun e _ => ⟨?_, fun htext => ⟨_, htext, h, fun _ => rfl⟩⟩⟩
  rintro ⟨text, htext, -, hname⟩
  rw [htext, hname h]

theorem textOf_eq_ok {e : Expr Select} {text : String} :
    s.textOf options e = .ok text ↔
      (s.scope options).text? (e.map (compiled options)) = some text := by
  rw [Scope.text?_eq_some]
  exact Except.map_eq_ok_iff

/-- **An order by an alias** stays as it is in the window of a page, and in the groups of a single
distinct projection unless another sort expression is written like it. So it is resolved exactly
when the aliased expression is written like the alias. -/
theorem keepsAlias_page (hc : s.body.cores.head? = some c)
    (hq : (s.compile options).result = .ok q) (hpage : s.strategy? options = some .paginated)
    {k : SortKey Select} (hk : k ∈ s.body.orders) {n : String} (hn : k.expr = .named n) :
    ∃ page window, q.body.rows = some (.derived page (s.scope options).names.numbered) ∧
      page.windows = [window] ∧
      s.KeepsAlias options c (window.orders.map (·.expr)) n ∧
      (c.singleDistinct = true →
        (∀ k' ∈ s.body.orders, s.textOf options k'.expr = .ok (Sql.name n) → k'.expr = .named n) →
        s.KeepsAlias options c page.body.groups n) := by
  obtain ⟨orders, horders, hpaginated⟩ := paginated_eq_ok hc hq hpage
  obtain ⟨page, window, keys, hrows, hwindows, hkeys, hordered, hgroups⟩ :=
    Scope.paginated_page hpaginated
  -- of the sort expressions that are written like the name, the first one is kept
  obtain ⟨kept, hkept, htext⟩ : ∃ kept ∈ orders,
      (s.scope options).text? kept.expr = some (Sql.name n) := by
    refine Scope.exists_distinctKeys_text horders (List.mem_map_of_mem hk) ?_
    rw [SortKey.map, hn]
    exact Scope.text?_named _ n
  refine ⟨page, window, hrows, hwindows, keepsAlias_of_mem c ?_, fun hsingle hsame =>
    keepsAlias_of_mem c ?_⟩
  · exact Scope.mem_texts_of_exprs hordered
      (List.mem_map_of_mem (Shape.orders_subset_keys hkeys hkept)) htext
  · have hnamed : kept.expr = .named n := by
      obtain ⟨k', hk', rfl⟩ := List.mem_map.1
        ((s.scope options).distinctKeys_subset horders hkept)
      have := hsame k' hk' (textOf_eq_ok.2 htext)
      rw [SortKey.map, this]
      rfl
    have hmem : .named n ∈ (Shape.of { s.level options with orders := orders }
        (c.prepared options)).numberedGroups { s.level options with orders := orders }
          (c.prepared options) := by
      refine Shape.named_mem_numberedGroups ?_ hkept hnamed
      exact (Core.singleDistinct_map (compiled options) c).trans hsingle
    exact Scope.mem_texts_of_exprs hgroups hmem (Scope.text?_named _ n)

/-- A page of names under an alias, in the order of the alias. -/
def namesPage (name : Expr Select) (order : String) : Select :=
  .of
    { cores :=
        [{ projections := [.alias name "n"], source := some (.table { name := "people" }) }]
      orders := [(Expr.named order).asc]
      offset := some (.int 1) }

theorem keepsAlias_distinctNames :
    ∃ c q page window, (namesPage (.distinct (.qualified "people" "name")) "N").body.cores.head? =
        some c ∧
      ((namesPage (.distinct (.qualified "people" "name")) "N").compile {}).result = .ok q ∧
      (namesPage (.distinct (.qualified "people" "name")) "N").strategy? {} = some .paginated ∧
      c.singleDistinct = true ∧ c.Aliases "N" (.qualified "people" "name") ∧
      q.body.rows = some (.derived page "__rnt") ∧ page.windows = [window] ∧
      (namesPage (.distinct (.qualified "people" "name")) "N").KeepsAlias {} c
        (window.orders.map (·.expr)) "N" ∧
      (namesPage (.distinct (.qualified "people" "name")) "N").KeepsAlias {} c
        page.body.groups "N" := by
  have hq : ((namesPage (.distinct (.qualified "people" "name")) "N").compile {}).result =
      .ok _ := rfl
  have hpage : (namesPage (.distinct (.qualified "people" "name")) "N").strategy? {} =
      some .paginated := by decide +kernel
  obtain ⟨c, hc⟩ : ∃ c,
      (namesPage (.distinct (.qualified "people" "name")) "N").body.cores.head? = some c :=
    ⟨_, rfl⟩
  have hsingle : c.singleDistinct = true := by
    rw [← Option.some.inj hc]
    rfl
  have haliases : c.Aliases "N" (.qualified "people" "name") := by
    rw [← Option.some.inj hc]
    exact ⟨_, List.mem_cons_self, "n", rfl, by decide +kernel, rfl⟩
  obtain ⟨page, window, hrows, hwindows, hwindow, hgroups⟩ :=
    keepsAlias_page hc hq hpage List.mem_cons_self rfl
  refine ⟨c, _, page, window, hc, hq, hpage, hsingle, haliases, hrows, hwindows, hwindow,
    hgroups hsingle fun k hk _ => ?_⟩
  rw [List.mem_singleton.1 hk]
  rfl

/-- **The alias is not resolved**, neither in the window of a page nor in the groups of distinct
names. -/
theorem not_resolves_names :
    (Statement.sql {} (.select (namesPage (.qualified "people" "name") "n")) =
        .ok ("SELECT [__rnt].* FROM (SELECT ROW_NUMBER() OVER (ORDER BY [n] ASC) AS [__rn], " ++
          "[people].[name] AS [n] FROM [people]) AS [__rnt] WHERE [__rnt].[__rn] > (1) " ++
          "ORDER BY [__rnt].[__rn] ASC") ∧
      ∃ q page window,
        ((namesPage (.qualified "people" "name") "n").compile {}).result = .ok q ∧
        q.body.rows = some (.derived page "__rnt") ∧ page.windows = [window] ∧
        ¬ (namesPage (.qualified "people" "name") "n").Resolves {} (window.orders.map (·.expr)) "n"
          (.qualified "people" "name")) ∧
    (Statement.sql {} (.select (namesPage (.distinct (.qualified "people" "name")) "n")) =
        .ok ("SELECT [__rnt].[n] FROM (SELECT DENSE_RANK() OVER (ORDER BY [n] ASC, " ++
          "[people].[name] ASC) AS [__rn], [people].[name] AS [n] FROM [people] " ++
          "GROUP BY [people].[name], [n]) AS [__rnt] WHERE [__rnt].[__rn] > (1) " ++
          "ORDER BY [__rnt].[__rn] ASC") ∧
      ∃ q page,
        ((namesPage (.distinct (.qualified "people" "name")) "n").compile {}).result = .ok q ∧
        q.body.rows = some (.derived page "__rnt") ∧
        ¬ (namesPage (.distinct (.qualified "people" "name")) "n").Resolves {} page.body.groups "n"
          (.qualified "people" "name")) := by
  have htext : ∀ name, (namesPage name "n").textOf {} (.qualified "people" "name") =
      .ok "[people].[name]" := fun _ => rfl
  refine ⟨⟨by decide +kernel, _, _, _, rfl, rfl, rfl, ?_⟩, by decide +kernel, _, _, rfl, rfl, ?_⟩
  · rintro ⟨text, h, hmem, -⟩
    rw [htext, Except.ok.injEq] at h
    rw [← h] at hmem
    exact absurd hmem (by decide +kernel)
  · rintro ⟨text, h, -, hname⟩
    rw [htext, Except.ok.injEq] at h
    rw [← h] at hname
    exact absurd (hname (List.mem_cons_of_mem _ List.mem_cons_self)) (by decide +kernel)

end Select

end Transact
