import Transact.Proofs.Plan.Runs

/-!
# What the strategies build

One lemma for each strategy says what parts its query has and how they are put together, so that no
proof about queries has to open a strategy again. The parts are those of the scope: expressions,
keys, windows and frames.

* `Scope.plain_builds`: one query.
* `Scope.count_builds`, `Scope.paginated_builds`: a query around a derived table.
* `Scope.distinctOrder_builds`: one derived table, or with an offset two of them.
* `Update.builds`: an update.
-/

set_option autoImplicit false

namespace Transact

/-! ## Selects -/

namespace Scope

variable {σ : Type} {sc : Scope σ} {s : SelectBody σ} {c : Core σ} {q : Query}

/-- What is said about the grouping of a plain select does not matter for its query. -/
theorem plain_result (sc : Scope σ) (sh : Shape) (s : SelectBody σ) (c : Core σ) :
    (sc.plain sh s c).result = (do
      let top ← sc.expr? s.limit
      let columns ← sc.projections (if (sh.plainArrangement s c).projections.head?.any
        Expr.isMarked then (sh.plainArrangement s c).projections.modifyHead Expr.unmarked
        else (sh.plainArrangement s c).projections)
      let frame ← sc.frame s c (sh.plainArrangement s c).groups
      let orders ← sc.keys (sh.plainArrangement s c).orders
      pure (Query.of { frame with
        distinct :=
          c.distinct || (sh.plainArrangement s c).projections.head?.any Expr.isMarked
        top := top
        columns := [columns]
        orders := orders })).result := by
  unfold plain
  cases sh.groupsToLimit <;> rfl

/-- A plain query is built from the arranged select. -/
theorem plain_builds {sh : Shape} (h : (sc.plain sh s c).result = .ok q) :
    ∃ (top : Option (Expr Query)) (columns : List (Column Query)) (frame : QueryBody Query)
        (orders : List (Key Query)) (distinct : Bool) (ps : List (Expr σ)),
      (ps = (sh.plainArrangement s c).projections ∨
        ps = (sh.plainArrangement s c).projections.modifyHead Expr.unmarked) ∧
      (sc.expr? s.limit).result = .ok top ∧ (sc.projections ps).result = .ok columns ∧
      (sc.frame s c (sh.plainArrangement s c).groups).result = .ok frame ∧
      (sc.keys (sh.plainArrangement s c).orders).result = .ok orders ∧
      q = .of { frame with
        distinct := distinct, top := top, columns := [columns], orders := orders } := by
  rw [plain_result] at h
  simp only [Trace.bind_eq_ok] at h
  obtain ⟨top, htop, columns, hcolumns, frame, hframe, orders, horders, h⟩ := h
  obtain rfl := Except.ok.inj h
  refine ⟨top, columns, frame, orders, _, _, ?_, htop, hcolumns, hframe, horders, rfl⟩
  split
  · exact .inr rfl
  · exact .inl rfl

/-- The arranged select has an order exactly when the select has one. -/
theorem plainArrangement_orders_eq_nil {sh : Shape} :
    (sh.plainArrangement s c).orders = [] ↔ s.orders = [] := by
  unfold Shape.plainArrangement
  split
  · exact List.map_eq_nil_iff
  · split <;> rfl

/-- A count is taken over a derived table that has the limit and the order. -/
theorem count_builds (h : (sc.count s c).result = .ok q) :
    ∃ (top offset : Option (Expr Query)) (window : Window Query) (frame : QueryBody Query)
        (orders : List (Key Query)),
      (sc.expr? s.countLimit?).result = .ok top ∧
      (sc.window .rowNumber [] (pageKeys s.orders c.baseTable?)).result = .ok window ∧
      (sc.frame s c c.groups).result = .ok frame ∧ (sc.keys s.orders).result = .ok orders ∧
      (sc.expr? s.offset).result = .ok offset ∧
      q = .of
        { columns := [[.expr (.alias (.countOf [.named sc.names.count]) "count_id")]]
          rows := some (.derived
            (.of { frame with
              top := top
              columns :=
                [[.ranked window sc.names.rowNumber, .expr (.alias (.int 1) sc.names.count)]]
              orders := orders })
            sc.names.numbered)
          filters := sc.names.pastOffset offset } := by
  simp only [count, Trace.bind_eq_ok, SelectBody.rowKeys_result, Trace.pure_result,
    Except.ok.injEq] at h
  obtain ⟨_, rfl, top, htop, window, hwindow, frame, hframe, orders, horders, offset, hoffset,
    rfl⟩ := h
  exact ⟨top, offset, window, frame, orders, htop, hwindow, hframe, horders, hoffset, rfl⟩

/-- The ranked rows of a select of distinct rows in a foreign order. -/
def rankedRows (names : SyntheticNames) (frame : QueryBody Query) (columns : List (Expr Query))
    (rank duplicate : Window Query) : Query :=
  .of { frame with
    columns :=
      [columns.map .expr, [.ranked rank names.order, .ranked duplicate names.duplicate]] }

/-- Distinct rows in a foreign order are taken from a derived table, and with an offset from another
one around it. -/
theorem distinctOrder_builds (h : (sc.distinctOrder s c).result = .ok q) :
    ∃ (columns outer : List (Expr Query)) (rank duplicate : Window Query)
        (frame : QueryBody Query) (top offset : Option (Expr Query)),
      (sc.exprs (c.projections.map Expr.unmarked)).result = .ok columns ∧
      (sc.window .denseRank [] s.orders).result = .ok rank ∧
      (sc.window .rowNumber ((c.projections.map Expr.unmarked).map c.identity) s.orders).result =
        .ok duplicate ∧
      (sc.frame s c c.groups).result = .ok frame ∧
      (sc.exprs ((c.projections.map Expr.unmarked).map Expr.outerName)).result = .ok outer ∧
      (sc.expr? s.limit).result = .ok top ∧ (sc.expr? s.offset).result = .ok offset ∧
      q = match offset with
        | none => .of
          { distinct := true
            top := top
            columns := [outer.map .expr ++ [.expr (.named sc.names.order)]]
            rows := some (.derived (rankedRows sc.names frame columns rank duplicate)
              sc.names.ranked)
            filters := [.equals (.named sc.names.duplicate) (.int 1)]
            orders := [⟨.named sc.names.order, none⟩] }
        | some offset => .of
          { distinct := true
            top := top
            columns := [[.expr .star]]
            rows := some (.derived
              (.of
                { columns :=
                    [outer.map .expr ++
                      [.ranked ⟨.rowNumber, [], [⟨.named sc.names.order, none⟩]⟩ sc.names.offset]]
                  rows := some (.derived (rankedRows sc.names frame columns rank duplicate)
                    sc.names.ranked)
                  filters := [.equals (.named sc.names.duplicate) (.int 1)] })
              sc.names.offsetRows)
            filters := [.binary (.named sc.names.offset) .gt offset]
            orders := [⟨.named sc.names.offset, none⟩] } := by
  simp only [distinctOrder, Trace.bind_eq_ok] at h
  obtain ⟨columns, hcolumns, rank, hrank, duplicate, hduplicate, frame, hframe, outer, houter, top,
    htop, offset, hoffset, h⟩ := h
  refine ⟨columns, outer, rank, duplicate, frame, top, offset, hcolumns, hrank, hduplicate, hframe,
    houter, htop, hoffset, ?_⟩
  cases offset with
  | none => exact (Except.ok.inj h).symm
  | some offset => exact (Except.ok.inj h).symm

/-- The outer query of a page has the limit, and its own number as the order. -/
theorem paginated_builds [BEq σ] {sh : Shape} (h : (sc.paginated sh s c).result = .ok q) :
    ∃ (keys : List (SortKey σ)) (top offset : Option (Expr Query)) (outer : List (Expr Query))
        (ranking : Ranking) (window : Window Query) (columns : List (Column Query))
        (frame : QueryBody Query),
      ((sh.denseKeys s c).result = .ok keys ∨ (s.rowKeys c).result = .ok keys) ∧
      (sc.expr? s.boundedLimit?).result = .ok top ∧ (sc.outerColumns sh c).result = .ok outer ∧
      (sc.window ranking [] keys).result = .ok window ∧
      (sc.projections (sh.numberedProjections c)).result = .ok columns ∧
      (sc.frame s c (sh.numberedGroups s c)).result = .ok frame ∧
      (sc.expr? s.offset).result = .ok offset ∧
      q = .of
        { distinct := sh.singleDistinct && sh.hasGroups
          top := top
          columns := [outer.map .expr]
          rows := some (.derived
            (.of { frame with
              distinct := c.distinct
              columns := [[.ranked window sc.names.rowNumber], columns] })
            sc.names.numbered)
          filters := sc.names.pastOffset offset
          orders := [⟨sc.names.rowNumberColumn, some .asc⟩] } := by
  unfold paginated at h
  by_cases hdistinct : (c.distinct || sh.singleDistinct) = true
  · simp only [hdistinct, if_true, Trace.bind_eq_ok] at h
    obtain ⟨keys, hkeys, top, htop, outer, houter, window, hwindow, columns, hcolumns, frame,
      hframe, offset, hoffset, h⟩ := h
    exact ⟨keys, top, offset, outer, _, window, columns, frame, .inl hkeys, htop, houter, hwindow,
      hcolumns, hframe, hoffset, (Except.ok.inj h).symm⟩
  · simp only [hdistinct, Bool.false_eq_true, if_false, Trace.bind_eq_ok] at h
    obtain ⟨keys, hkeys, top, htop, outer, houter, window, hwindow, columns, hcolumns, frame,
      hframe, offset, hoffset, h⟩ := h
    exact ⟨keys, top, offset, outer, _, window, columns, frame, .inr hkeys, htop, houter, hwindow,
      hcolumns, hframe, hoffset, (Except.ok.inj h).symm⟩

end Scope

/-! ## Updates -/

namespace Update

variable {options : Options} {u : Update} {uq : UpdateQuery}

/-- The scope in which an update is compiled; it introduces no names. -/
def scope (options : Options) : Scope Select := ⟨options, .preferred, Select.compile options⟩

/-- Only the limit of an update is guarded. -/
theorem guarded_eq (u : Update) : u.guarded = { u with limit := u.guarded.limit } := by
  unfold guarded
  split <;> rfl

theorem keyColumn?_guarded (u : Update) : u.guarded.keyColumn? = u.keyColumn? := by
  rw [guarded_eq]
  rfl

theorem table_guarded (u : Update) : u.guarded.table = u.table := by rw [guarded_eq]

theorem values_guarded (u : Update) : u.guarded.values = u.values := by rw [guarded_eq]

theorem wheres_guarded (u : Update) : u.guarded.wheres = u.wheres := by rw [guarded_eq]

theorem orders_guarded (u : Update) : u.guarded.orders = u.orders := by rw [guarded_eq]

theorem limit_guarded (u : Update) :
    u.guarded.limit = u.limit ∨ u.guarded.limit = some (.int unboundedLimit) := by
  unfold guarded
  split
  · exact .inr rfl
  · exact .inl rfl

/-- The limit of a restricted update: an order alone comes with the limit that stands for none. -/
def effectiveLimit (u : Update) : Expr Select := u.limit.getD (.int unboundedLimit)

theorem isRestricted_iff : u.isRestricted = true ↔ u.orders ≠ [] ∨ u.limit ≠ none := by
  cases hlimit : u.limit <;> simp [isRestricted, hlimit]

theorem isRestricted_guarded (u : Update) : u.guarded.isRestricted = u.isRestricted := by
  unfold guarded isRestricted
  split
  · simp_all
  · rfl

theorem limit_guarded_of_restricted (h : u.isRestricted = true) :
    u.guarded.limit = some u.effectiveLimit := by
  unfold guarded effectiveLimit
  cases hlimit : u.limit with
  | none =>
    have horders : u.orders ≠ [] := by simpa [isRestricted, hlimit] using h
    simp [horders]
  | some limit => simp [hlimit]

/-- The limit of a restricted update without a key, unless it stands for none. -/
def ownLimit? (u : Update) : Option (Expr Select) :=
  if u.guarded.isRestricted && u.guarded.keyColumn?.isNone then u.guarded.boundedLimit? else none

/-- What an update is compiled to, part by part. -/
theorem builds (h : (u.compile options).result = .ok uq) :
    ((scope options).expr? u.ownLimit?).result = .ok uq.top ∧ uq.table = u.table ∧
      (compileValues options u.values).result = .ok uq.values ∧
      ((scope options).exprs u.guarded.conditions).result = .ok uq.filters := by
  have hresult : (u.compile options).result = (do
      let top ← compileLimit options u.ownLimit?
      let values ← compileValues options u.guarded.values
      let filters ← Expr.mapListM (Select.compile options) u.guarded.conditions
      pure (⟨top, u.guarded.table, values, filters⟩ : UpdateQuery)).result := by
    unfold compile ownLimit?
    simp only
    cases u.guarded.isRestricted && u.guarded.keyColumn?.isNone <;> rfl
  rw [hresult, table_guarded, values_guarded] at h
  simp only [Trace.bind_eq_ok] at h
  obtain ⟨top, htop, values, hvalues, filters, hfilters, h⟩ := h
  obtain rfl := Except.ok.inj h
  have hlimit : ∀ limit, compileLimit options limit = (scope options).expr? limit := by
    intro limit
    cases limit <;> rfl
  rw [hlimit] at htop
  exact ⟨htop, rfl, hvalues, hfilters⟩

end Update

end Transact
