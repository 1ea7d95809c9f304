import Transact.Proofs.Compile
import Transact.Proofs.Plan.Fresh
import Transact.Proofs.Relation.Numbering

/-!
# Pages

A paginated select that asks for no distinct rows returns the requested positions of its rows
(`Select.yields_page_iff`): its rows are sorted by `pageKeys`, the first ones up to the offset are
left out, and as many of the next are kept as the limit says.

* `Scope.paginated_eq_ok`: the query that such a select is compiled to.
* `Database.listed_outer`: what the list of the outer query shows of a numbered row.
-/

set_option autoImplicit false

namespace Transact

section

variable {σ : Type}

/-! ## What rows are numbered by -/

/-- What the rows of a page are sorted by: the order that is asked for, else the primary key of the
base table, else its first column, else nothing in particular. -/
def pageKeys (orders : List (SortKey σ)) (base : Option TableRef) : List (SortKey σ) :=
  match orders, base.bind TableRef.keyColumn?, base.bind fun t => t.columnRefs.head? with
  | k :: ks, _, _ => k :: ks
  | [], some key, _ => [(Expr.column key).asc]
  | [], none, some column => [(Expr.column column).asc]
  | [], none, none => [(Expr.raw "(SELECT NULL)").asc]

theorem SelectBody.rowKeys_result (s : SelectBody σ) (c : Core σ) :
    (s.rowKeys c).result = .ok (pageKeys s.orders c.baseTable?) := by
  unfold SelectBody.rowKeys pageKeys
  cases s.orders with
  | cons k ks => rfl
  | nil =>
    cases c.baseTable? with
    | none => rfl
    | some t =>
      simp only [Option.bind_some]
      cases t.keyColumn? with
      | some key => rfl
      | none => cases t.columnRefs.head? <;> rfl

/-- The most rows that a page has: the limit, unless it stands for none. -/
def pageSize (limit : Option Int64) : Option Nat :=
  (limit.filter (· ≠ unboundedLimit)).map fun n => n.toInt.toNat

theorem SelectBody.boundedLimit?_eq [BEq σ] {s : SelectBody σ} {limit : Option Int64}
    (h : s.limit = limit.map .int) :
    s.boundedLimit? = (limit.filter (· ≠ unboundedLimit)).map .int := by
  rw [boundedLimit?, h]
  cases limit with
  | none => rfl
  | some n =>
    have hsame : ((Expr.int n : Expr σ) == .int unboundedLimit) = decide (n = unboundedLimit) := by
      show (Literal.integer n == Literal.integer unboundedLimit) = _
      by_cases hn : n = unboundedLimit
      · simp [hn]
      · simp [hn]
    simp only [Option.map_some, Option.filter, hsame]
    by_cases hn : n = unboundedLimit <;> simp [hn]

/-! ## Selects that ask for no distinct rows -/

/-- A projection without a mark that is no call is built on itself. -/
theorem Expr.bare_of_not_marked : ∀ {p : Expr σ}, p.isMarked = false → p.isCall = false → p.bare = p
  | .alias e name, hm, hc => by
    rw [bare, bare_of_not_marked (p := e) hm hc]
  | .aggregate _ _ _, _, hc => by cases hc
  | .distinct _, hm, _ => by cases hm
  | .column _, _, _ => rfl
  | .wildcard _, _, _ => rfl
  | .literal _, _, _ => rfl
  | .typed _ _, _, _ => rfl
  | .call _ _, _, _ => rfl
  | .binary _ _ _, _, _ => rfl
  | .not _, _, _ => rfl
  | .isNull _ _, _, _ => rfl
  | .inList _ _ _, _, _ => rfl
  | .inSubquery _ _ _, _, _ => rfl
  | .grouping _, _, _ => rfl
  | .caseSensitive _, _, _ => rfl
  | .raw _, _, _ => rfl

theorem Shape.numberedProjections_of [BEq σ] {s : SelectBody σ} {c : Core σ}
    (hmarks : ∀ p ∈ c.projections, p.isMarked = false) :
    (Shape.of s c).numberedProjections c = c.projections := by
  rw [numberedProjections]
  split
  · rfl
  · rename_i hcalls
    refine (List.map_congr_left fun p hp => ?_).trans (List.map_id _)
    refine Expr.bare_of_not_marked (hmarks p hp) ?_
    have hcalls : c.projections.any Expr.isCall ≠ true := hcalls
    simp only [ne_eq, List.any_eq_true, not_exists, not_and, Bool.not_eq_true] at hcalls
    exact hcalls p hp

theorem Core.singleDistinct_of_not_marked {c : Core σ}
    (hmarks : ∀ p ∈ c.projections, p.isMarked = false) : c.singleDistinct = false := by
  rw [singleDistinct]
  split
  · rename_i p hp
    exact hmarks p (by rw [hp]; exact List.mem_cons_self)
  · rfl

theorem Core.keyOnly_iff {c : Core σ} (h : c.keyOnly = true) :
    ∃ column, c.projections = [.column column] := by
  unfold keyOnly at h
  split at h
  · rename_i column _ hps _
    exact ⟨column, hps⟩
  · cases h

/-- **The query of a page** without distinct rows. -/
theorem Scope.paginated_eq_ok [BEq σ] {sc : Scope σ} {sh : Shape} {s : SelectBody σ} {c : Core σ}
    {q : Query} (hdistinct : c.distinct = false) (hsingle : sh.singleDistinct = false)
    (hprojections : sh.numberedProjections c = c.projections)
    (h : (sc.paginated sh s c).result = .ok q) :
    ∃ (keys : List (Key Query)) (top : Option (Expr Query)) (outer columns : List (Expr Query))
        (frame : QueryBody Query) (offset : Option (Expr Query)),
      (sc.keys (pageKeys s.orders c.baseTable?)).result = .ok keys ∧
      (sc.expr? s.boundedLimit?).result = .ok top ∧
      (sc.outerColumns sh c).result = .ok outer ∧
      (sc.projections c.projections).result = .ok (columns.map .expr) ∧
      (sc.frame s c c.groups).result = .ok frame ∧
      (sc.expr? s.offset).result = .ok offset ∧
      q = .of
        { top := top
          columns := [outer.map .expr]
          rows := some (.derived
            (.of { frame with
              columns :=
                [[.ranked ⟨.rowNumber, [], keys⟩ sc.names.rowNumber], columns.map .expr] })
            sc.names.numbered)
          filters := sc.names.pastOffset offset
          orders := [⟨sc.names.rowNumberColumn, some .asc⟩] } := by
  have hgroups : sh.numberedGroups s c = c.groups := by rw [Shape.numberedGroups, hsingle]; rfl
  simp only [paginated, hdistinct, hsingle, hprojections, hgroups, Bool.or_self, Bool.false_and,
    Bool.false_eq_true, if_false, Trace.bind_eq_ok, Trace.pure_result, Except.ok.injEq,
    SelectBody.rowKeys_result] at h
  obtain ⟨_, rfl, top, htop, outer, houter, window, hwindow, columns, hcolumns, frame, hframe,
    offset, hoffset, rfl⟩ := h
  obtain ⟨ps, keys, hps, hkeys, rfl⟩ := window_eq_ok.1 hwindow
  obtain ⟨es, -, rfl⟩ := projections_eq_ok.1 hcolumns
  obtain _ | _ := exprs_eq_ok.1 hps
  obtain ⟨rows, filters, groups, having, -, -, -, -, rfl⟩ := frame_eq_ok.1 hframe
  exact ⟨keys, top, outer, es, _, offset, hkeys, htop, houter, hcolumns, hframe, hoffset, rfl⟩

end

/-! ## What a page shows -/

/-- **The list of the outer query**: the aliases of a join, the primary key alone, or everything. -/
theorem Scope.outer_cases {σ : Type} [BEq σ] {sc : Scope σ} {s : SelectBody σ} {c : Core σ}
    {outer : List (Expr Query)} (hsingle : c.singleDistinct = false)
    (houter : (sc.outerColumns (Shape.of s c) c).result = .ok outer) :
    (((Shape.of s c).hasJoin && (Shape.of s c).allAliased) = true ∧
        (∀ p ∈ c.projections, p.alias?.isSome) ∧
        outer = (c.projections.filterMap Expr.alias?).map .named) ∨
      (¬ ((Shape.of s c).hasJoin && (Shape.of s c).allAliased) = true ∧
        (Shape.of s c).keyOnly = true ∧
        ∃ column, c.projections = [.column column] ∧
          outer = [.qualified sc.names.numbered column.name]) ∨
      (¬ ((Shape.of s c).hasJoin && (Shape.of s c).allAliased) = true ∧
        ¬ (Shape.of s c).keyOnly = true ∧ outer = [.allOf sc.names.numbered]) := by
  have hsingle : (Shape.of s c).singleDistinct = false := hsingle
  obtain ⟨projections, hprojections, houter⟩ := Trace.bind_eq_ok.1 houter
  rw [outerProjections, hsingle, if_neg Bool.false_ne_true] at hprojections
  split at hprojections
  · rename_i hjoin
    obtain ⟨-, hall⟩ := Bool.and_eq_true_iff.1 hjoin
    obtain rfl := Except.ok.inj hprojections
    rw [exprs_named] at houter
    exact .inl ⟨hjoin, List.all_eq_true.1 (Bool.and_eq_true_iff.1 hall).2,
      (Except.ok.inj houter).symm⟩
  · rename_i hjoin
    split at hprojections
    · rename_i hkey
      obtain ⟨column, hps⟩ := Core.keyOnly_iff hkey
      rw [hps] at hprojections
      obtain rfl := Except.ok.inj hprojections
      exact .inr (.inl ⟨hjoin, hkey, column, hps,
        (Except.ok.inj ((sc.exprs_columns [_]).symm.trans houter)).symm⟩)
    · rename_i hkey
      obtain rfl := Except.ok.inj hprojections
      obtain _ | ⟨hall, hnil⟩ := exprs_eq_ok.1 houter
      obtain _ | _ := hnil
      obtain rfl := Except.ok.inj ((sc.expr_wildcard _).symm.trans hall)
      exact .inr (.inr ⟨hjoin, hkey, rfl⟩)

theorem Scope.isReference_outer {σ : Type} [BEq σ] {sc : Scope σ} {s : SelectBody σ} {c : Core σ}
    {outer : List (Expr Query)} (hsingle : c.singleDistinct = false)
    (houter : (sc.outerColumns (Shape.of s c) c).result = .ok outer) :
    ∀ column ∈ outer.map Column.expr, column.IsReference := by
  rintro _ hcolumn
  obtain ⟨e, he, rfl⟩ := List.mem_map.1 hcolumn
  rcases outer_cases hsingle houter with ⟨-, -, rfl⟩ | ⟨-, -, column, -, rfl⟩ | ⟨-, -, rfl⟩
  · obtain ⟨n, -, rfl⟩ := List.mem_map.1 he
    trivial
  · obtain rfl := List.mem_singleton.1 he
    trivial
  · obtain rfl := List.mem_singleton.1 he
    trivial

theorem Expr.alias?_eq_some {σ : Type} {p : Expr σ} {name : String} :
    p.alias? = some name ↔ ∃ e, p = .alias e name := by
  unfold alias?
  split <;> simp_all

/-- Aliased expressions give columns under their aliases. -/
theorem View.map_fst_listed_aliased {σ ρ V : Type} (vw : View ρ V) {sc : Scope σ} (r : ρ)
    {ps : List (Expr σ)} {es : List (Expr Query)}
    (hes : List.Forall₂ (fun p e => (sc.expr p).result = .ok e) ps es)
    (h : ∀ p ∈ ps, p.alias?.isSome) :
    (vw.listed es r).map Prod.fst = (ps.filterMap Expr.alias?).map some := by
  induction hes with
  | nil => rfl
  | cons he hes ih =>
    obtain ⟨hp, hps⟩ := List.forall_mem_cons.1 h
    obtain ⟨name, hname⟩ := Option.isSome_iff_exists.1 hp
    obtain ⟨p, rfl⟩ := Expr.alias?_eq_some.1 hname
    obtain ⟨e', -, rfl⟩ := Scope.expr_alias_eq_ok.1 he
    rw [View.listed, List.flatMap_cons, List.map_append, ← View.listed, ih hps]
    rfl

namespace Database

variable {ρ V : Type} [LinearOrder V] (db : Database ρ V)

/-- A row of a page: its projections, after its number where the outer query lists everything. The
outer query of a join whose projections all have aliases refers to them by these. -/
def pageRow (sh : Shape) (names : SyntheticNames) (columns : List (Expr Query)) (x : ρ × Nat) :
    Tuple V :=
  if sh.hasJoin && sh.allAliased then Tuple.resolved (db.source.listed columns x.1)
  else if sh.keyOnly then db.source.listed columns x.1
  else (some names.rowNumber, db.int x.2) :: db.source.listed columns x.1

variable {σ : Type} {sc : Scope σ} {columns : List (Expr Query)}

/-- Aliases in the outer list show the aliased projections. -/
theorem listed_aliases {ps : List (Expr σ)} (hps : ∀ p ∈ ps, p.alias?.isSome)
    (hfresh : ∀ p ∈ ps, ∀ n ∈ p.names, Text.lower sc.names.rowNumber ≠ Text.lower n)
    (hcolumns : (sc.projections ps).result = .ok (columns.map .expr)) (x : ρ × Nat) :
    (db.derived sc.names.numbered).listed ((ps.filterMap Expr.alias?).map .named)
        (db.source.numberedRow [] sc.names.rowNumber columns x) =
      Tuple.resolved (db.source.listed columns x.1) := by
  have hones : (ps.map fun p => if p.isLiteralOne then .alias p sc.names.one else p) = ps := by
    refine (List.map_congr_left fun p hp => ?_).trans (List.map_id ps)
    obtain ⟨name, hname⟩ := Option.isSome_iff_exists.1 (hps p hp)
    obtain ⟨e, rfl⟩ := Expr.alias?_eq_some.1 hname
    rfl
  obtain ⟨es, hes, hcols⟩ := Scope.projections_eq_ok.1 hcolumns
  obtain rfl : columns = es := List.map_injective_iff.2 (fun _ _ h => Column.expr.inj h) hcols
  rw [hones, Scope.exprs_eq_ok] at hes
  rw [listed_named, Tuple.resolved_eq (db.source.map_fst_listed_aliased x.1 hes hps)]
  refine List.map_congr_left fun n hn => ?_
  obtain ⟨p, hp, hpn⟩ := List.mem_filterMap.1 hn
  obtain ⟨e, rfl⟩ := Expr.alias?_eq_some.1 hpn
  have hne := hfresh _ hp n (by rw [Expr.names]; exact List.mem_cons_self)
  rw [View.numberedRow, View.listed, List.flatMap_nil, List.nil_append, Tuple.get?_cons_ne hne]

/-- The name of a column in the outer list shows this column. -/
theorem listed_key {column : ColumnRef}
    (hfresh : Text.lower sc.names.rowNumber ≠ Text.lower column.name)
    (hcolumns : (sc.projections [.column column]).result = .ok (columns.map .expr)) (x : ρ × Nat) :
    (db.derived sc.names.numbered).listed [.qualified sc.names.numbered column.name]
        (db.source.numberedRow [] sc.names.rowNumber columns x) =
      db.source.listed columns x.1 := by
  obtain ⟨es, hes, hcols⟩ := Scope.projections_eq_ok.1 hcolumns
  obtain rfl : columns = es := List.map_injective_iff.2 (fun _ _ h => Column.expr.inj h) hcols
  obtain rfl : columns = [.column column] :=
    Except.ok.inj (hes.symm.trans (sc.exprs_columns [column]))
  simp only [View.listed, List.flatMap_cons, List.flatMap_nil, List.append_nil, View.outputs,
    Expr.qualified, View.numberedRow, derived, derivedValue, Option.all_some, beq_self_eq_true,
    if_true, List.nil_append, Tuple.get?_cons_ne hfresh]
  simp [Tuple.get?]

/-- **The list of the outer query** shows of a numbered row what the select projects. -/
theorem listed_outer [BEq σ] {s : SelectBody σ} {c : Core σ} {outer : List (Expr Query)}
    (hsingle : c.singleDistinct = false)
    (hfresh : ∀ p ∈ c.projections, ∀ n ∈ p.names, Text.lower sc.names.rowNumber ≠ Text.lower n)
    (houter : (sc.outerColumns (Shape.of s c) c).result = .ok outer)
    (hcolumns : (sc.projections c.projections).result = .ok (columns.map .expr)) (x : ρ × Nat) :
    (db.derived sc.names.numbered).listed outer
        (db.source.numberedRow [] sc.names.rowNumber columns x) =
      db.pageRow (Shape.of s c) sc.names columns x := by
  rw [pageRow]
  rcases Scope.outer_cases hsingle houter with ⟨hjoin, hps, rfl⟩ | ⟨hjoin, hkey, column, hps, rfl⟩ |
    ⟨hjoin, hkey, rfl⟩
  · rw [if_pos hjoin, listed_aliases db hps hfresh hcolumns]
  · have hname := hfresh (.column column) (by rw [hps]; exact List.mem_cons_self) column.name
      (by rw [Expr.names]; exact List.mem_cons_self)
    rw [hps] at hcolumns
    rw [if_neg hjoin, if_pos hkey, listed_key db hname hcolumns]
  · rw [if_neg hjoin, if_neg hkey]
    exact List.append_nil _

/-! ## The rows of a page -/

/-- The rows of a core, numbered along a sort. -/
theorem yields_numbered {s : SelectBody σ} {c : Core σ} {groups : List (Expr σ)}
    {frame : QueryBody Query} {keys : List (Key Query)} {name : String} {rows : List (Tuple V)}
    (hframe : (sc.frame s c groups).result = .ok frame) :
    db.Yields (.of { frame with
        columns := [[.ranked ⟨.rowNumber, [], keys⟩ name], columns.map .expr] }) rows ↔
      ∃ sorted, IsSort (db.source.sortKey keys) (db.rows frame) sorted ∧
        rows.Perm ((sorted.zipIdx 1).map (db.source.numberedRow [] name columns)) := by
  obtain ⟨rows, filters, groups, having, hrows, -, -, -, rfl⟩ := Scope.frame_eq_ok.1 hframe
  rw [yields_source_iff (Scope.rows_ne_derived hrows)]
  exact db.source.gives_numbered (by simp) rfl rfl rfl

/-- The first column of a numbered row is its number. -/
theorem derivedValue_rowNumber (names : SyntheticNames) (columns : List (Expr Query))
    (x : ρ × Nat) :
    db.derivedValue names.numbered (db.source.numberedRow [] names.rowNumber columns x)
      names.rowNumberColumn = db.int x.2 := by
  simp [SyntheticNames.rowNumberColumn, Expr.qualified, derivedValue, View.numberedRow,
    View.listed, Tuple.get?_cons, source]

theorem derivedValue_offset (name : String) {m : Int64} (hm : 0 ≤ m) (t : Tuple V) :
    db.derivedValue name t (.grouping (.int m)) = db.int (m.toInt.toNat : Nat) := by
  rw [Int.toNat_of_nonneg (Int64.le_iff_toInt_le.1 hm)]
  rfl

/-- **One level of a page** returns the requested positions of its rows. -/
theorem yields_paginated [BEq σ] {s : SelectBody σ} {c : Core σ} {q : Query} {m : Int64}
    {limit : Option Int64} (hdistinct : c.distinct = false)
    (hmarks : ∀ p ∈ c.projections, p.isMarked = false)
    (hfresh : ∀ p ∈ c.projections, ∀ n ∈ p.names, Text.lower sc.names.rowNumber ≠ Text.lower n)
    (hoffset : s.offset = some (.int m)) (hm : 0 ≤ m) (hlimit : s.limit = limit.map .int)
    (h : (sc.paginated (Shape.of s c) s c).result = .ok q) :
    ∃ (keys : List (Key Query)) (frame : QueryBody Query) (columns : List (Expr Query)),
      (sc.keys (pageKeys s.orders c.baseTable?)).result = .ok keys ∧
      (sc.frame s c c.groups).result = .ok frame ∧
      (sc.projections c.projections).result = .ok (columns.map .expr) ∧
      ∀ result, db.Yields q result ↔
        ∃ sorted, IsSort (db.source.sortKey keys) (db.rows frame) sorted ∧
          result = (takeTop (pageSize limit) ((sorted.zipIdx 1).drop m.toInt.toNat)).map
            (db.pageRow (Shape.of s c) sc.names columns) := by
  have hsingle := Core.singleDistinct_of_not_marked hmarks
  obtain ⟨keys, top, outer, columns, frame, offset, hkeys, htop, houter, hcolumns, hframe, hoff,
    rfl⟩ := Scope.paginated_eq_ok hdistinct hsingle (Shape.numberedProjections_of hmarks) h
  refine ⟨keys, frame, columns, hkeys, hframe, hcolumns, fun result => ?_⟩
  obtain rfl : offset = some (.int m) := by
    rw [show s.offset = (some m).map .int from hoffset] at hoff
    exact Scope.expr?_int_eq_ok.1 hoff
  have htop : top.map db.rowCount = pageSize limit := by
    rw [SelectBody.boundedLimit?_eq hlimit] at htop
    rw [Scope.expr?_int_eq_ok.1 htop, pageSize, Option.map_map]
    rfl
  have hnumber := db.derivedValue_rowNumber sc.names columns
  rw [← htop]
  exact db.yields_page ⟨rfl, rfl, rfl⟩ (List.append_nil (outer.map Column.expr))
    (Scope.isReference_outer hsingle houter) rfl rfl (by decide)
    (db.derivedValue_offset sc.names.numbered hm) hnumber
    (db.listed_outer hsingle hfresh houter hcolumns) hnumber (by simp)
    fun _ => db.yields_numbered hframe

end Database

/-- **A page is the requested positions.** A paginated select that asks for no distinct rows has a
text, and whatever the rows of its first core are, its query returns this: the rows in some order
that is sorted by the page keys, from position `m + 1` on and as many as the limit says. Every such
order is a possible result. -/
theorem Select.yields_page_iff {ρ V : Type} [LinearOrder V] (db : Database ρ V) {options : Options}
    {s : Select} {c : Core Select} {m : Int64} {limit : Option Int64} {q : Query}
    (hq : (s.compile options).result = .ok q)
    (hstrategy : s.strategy? options = some .paginated)
    (hc : s.body.cores.head? = some c) (hdistinct : c.distinct = false)
    (hmarks : ∀ p ∈ c.projections, p.isMarked = false)
    (hoffset : s.body.offset = some (.int m)) (hm : 0 ≤ m)
    (hlimit : s.body.limit = limit.map .int) :
    Statement.sql options (.select s) = .ok (q.sql options.collation) ∧
    ∃ (orders : List (SortKey Compiled)) (keys : List (Key Query)) (frame : QueryBody Query)
        (columns : List (Expr Query)),
      ((s.scope options).distinctKeys (s.level options).orders).result = .ok orders ∧
      ((s.scope options).keys (pageKeys orders c.baseTable?)).result = .ok keys ∧
      ((s.scope options).frame (s.level options) (c.prepared options)
        (c.prepared options).groups).result = .ok frame ∧
      ((s.scope options).projections (c.prepared options).projections).result =
        .ok (columns.map .expr) ∧
      ∀ result, db.Yields q result ↔
        ∃ sorted, IsSort (db.source.sortKey keys) (db.rows frame) sorted ∧
          result = (takeTop (pageSize limit) ((sorted.zipIdx 1).drop m.toInt.toNat)).map
            (db.pageRow (Shape.of (s.level options) (c.prepared options))
              (s.scope options).names columns) := by
  refine ⟨Select.sql_eq hq, ?_⟩
  obtain ⟨orders, horders, hpaginated⟩ := Select.paginated_eq_ok hc hq hstrategy
  have hdistinct : (c.prepared options).distinct = false := hdistinct
  have hmarks : ∀ p ∈ (c.prepared options).projections, p.isMarked = false := by
    intro p hp
    obtain ⟨p', hp', rfl⟩ := List.mem_map.1 hp
    rw [Expr.isMarked_map]
    exact hmarks p' hp'
  have hfresh : ∀ p ∈ (c.prepared options).projections, ∀ n ∈ p.names,
      Text.lower (s.scope options).names.rowNumber ≠ Text.lower n := fun p hp n hn =>
    SyntheticNames.lower_ne_of_mem_avoiding List.mem_cons_self
      (SelectBody.mem_names_of_mem_projections (Select.level_cores_head? options hc) hp hn)
  have hoffset := Select.level_int options (show _ = (some m).map Expr.int from hoffset)
  have hlimit := Select.level_int options hlimit
  obtain ⟨keys, frame, columns, hkeys, hframe, hcolumns, hyields⟩ :=
    db.yields_paginated hdistinct hmarks hfresh hoffset hm hlimit hpaginated
  rw [Core.baseTable?_prepared] at hkeys
  exact ⟨orders, keys, frame, columns, horders, hkeys, hframe, hcolumns, hyields⟩

/-- Three rows, each of which is a number. -/
def threeNumbers : Database Int Int where
  int := RelEmbedding.refl _
  isNull _ := false
  isNull_int _ := rfl
  rows _ := [30, 10, 20]
  value _ r := r
  whole _ r := [(some "n", r)]
  otherValue _ _ := 0
  otherTest _ _ := false
  otherCount _ := 0

/-- One row after the first, by the primary key. -/
def secondNumber : Select :=
  .of
    { cores :=
        [{ projections := [.named "n", .alias (.named "n") "m"]
           source := some (.table { name := "t", primaryKey := some "n" }) }]
      limit := some (.int 1)
      offset := some (.int 1) }

theorem yields_secondNumber_iff :
    ∃ q, (secondNumber.compile {}).result = .ok q ∧
      ∀ result, threeNumbers.Yields q result ↔
        result = [[(some "__rn", 2), (some "n", 20), (some "m", 20)]] := by
  refine ⟨_, rfl, fun result => ?_⟩
  obtain ⟨-, orders, keys, frame, columns, horders, hkeys, -, hcolumns, hyields⟩ :=
    Select.yields_page_iff threeNumbers (s := secondNumber) rfl rfl rfl rfl (by decide) rfl
      (by decide) (show _ = (some 1).map Expr.int from rfl)
  obtain rfl : _ = orders := Except.ok.inj horders
  obtain rfl : _ = keys := Except.ok.inj hkeys
  obtain rfl : columns = [.named "n", .alias (.named "n") "m"] :=
    List.map_injective_iff.2 (fun _ _ h => Column.expr.inj h) (Except.ok.inj hcolumns).symm
  have hsort : ∀ sorted, IsSort (threeNumbers.source.sortKey [⟨.qualified "t" "n", some .asc⟩])
      (threeNumbers.rows frame) sorted ↔ sorted = [10, 20, 30] := by
    intro sorted
    refine IsSort.iff_eq_of_lt (show List.Perm [10, 20, 30] [30, 10, 20] by decide) ?_
    have hpairs : List.Pairwise (· < ·) [(10 : Int), 20, 30] := by decide
    exact hpairs.imp fun h => View.sortKey_single_lt _ (by decide) h
  rw [hyields]
  constructor
  · rintro ⟨sorted, hsorted, rfl⟩
    rw [(hsort sorted).1 hsorted]
    rfl
  · rintro rfl
    exact ⟨_, (hsort _).2 rfl, rfl⟩

end Transact
