import Transact.Proofs.CompiledSource
import Transact.Proofs.Plan.Fresh
import Transact.Proofs.Relation.Groups

/-!
# Distinct rows in a foreign order

A select of distinct rows that is sorted by something else returns each combination of projected
values once, in the order of the least sort key that it has (`Select.yields_groups_iff`).

* `Scope.distinctOrder_eq_ok`: the query that such a select is compiled to.
* `Database.yields_ranked_iff`: its inner query ranks the rows and numbers duplicates.
-/

set_option autoImplicit false

namespace Transact

/-! ## Projections under one name -/

namespace Expr

variable {σ τ : Type}

/-- The name of the column that a projection gives when it is a column, or an expression other than
a wildcard under one alias. -/
def outputName? : Expr σ → Option String
  | .column c => some c.name
  | .alias (.alias _ _) _ => none
  | .alias (.distinct _) _ => none
  | .alias (.wildcard _) _ => none
  | .alias _ name => some name
  | _ => none

/-- A projection with a name is a column, or an expression under an alias that has no other. -/
theorem outputName?_eq_some {p : Expr σ} {n : String} (h : p.outputName? = some n) :
    (∃ c, p = .column c ∧ c.name = n) ∨
      ∃ e, p = .alias e n ∧ e.unaliased = e ∧ e.wildcardTable? = none := by
  unfold outputName? at h
  split at h
  · rename_i c
    exact .inl ⟨c, rfl, Option.some.inj h⟩
  · cases h
  · cases h
  · cases h
  · rename_i e name halias hdistinct hwildcard
    obtain rfl := Option.some.inj h
    refine .inr ⟨e, rfl, ?_, ?_⟩
    · unfold unaliased
      split
      · exact absurd rfl (halias _ _)
      · rfl
    · unfold wildcardTable?
      split
      · exact absurd rfl (halias _ _)
      · exact absurd rfl (hdistinct _)
      · exact absurd rfl (hwildcard _)
      · rfl
  · cases h

theorem names_unmarked : ∀ p : Expr σ, p.unmarked.names = p.names
  | .distinct e => by rw [unmarked, names, names_unmarked e]
  | .alias e name => by rw [unmarked, names, names, names_unmarked e]
  | .column _ | .wildcard _ | .literal _ | .typed _ _ | .aggregate _ _ _ | .call _ _
  | .binary _ _ _ | .not _ | .isNull _ _ | .inList _ _ _ | .inSubquery _ _ _
  | .grouping _ | .caseSensitive _ | .raw _ => rfl

/-- The name of a projection is in use. -/
theorem mem_names_of_outputName? {p : Expr σ} {n : String} (h : p.outputName? = some n) :
    n ∈ p.names := by
  rcases outputName?_eq_some h with ⟨c, rfl, rfl⟩ | ⟨e, rfl, -, -⟩
  · rw [names]
    exact List.mem_cons_self
  · rw [names]
    exact List.mem_cons_self

theorem outputName?_map (f : σ → τ) (p : Expr σ) : (p.map f).outputName? = p.outputName? := by
  cases p <;> try rfl
  rename_i e name
  cases e <;> rfl

end Expr

/-! ## The query -/

section

variable {σ : Type}

theorem Core.identity_of_outputName? (c : Core σ) {p : Expr σ} {n : String}
    (h : p.outputName? = some n) : c.identity p = p.unaliased := by
  rcases Expr.outputName?_eq_some h with ⟨column, rfl, -⟩ | ⟨e, rfl, he, hw⟩
  · rfl
  · rw [identity, Expr.unaliased, he, hw]

theorem Expr.outerName_of_outputName? {p : Expr σ} {n : String} (h : p.outputName? = some n) :
    p.outerName = .named n := by
  rcases outputName?_eq_some h with ⟨column, rfl, rfl⟩ | ⟨e, rfl, -, -⟩ <;> rfl

theorem Expr.map_outerName : ∀ {ps : List (Expr σ)} {outputs : List String},
    ps.map outputName? = outputs.map some → ps.map outerName = outputs.map .named
  | [], outputs, h => by
    obtain rfl := List.map_eq_nil_iff.1 h.symm
    rfl
  | p :: ps, outputs, h => by
    obtain ⟨n, outputs, rfl, hname, hrest⟩ := List.map_eq_cons_iff.1 h.symm
    rw [List.map_cons, outerName_of_outputName? hname.symm, map_outerName hrest.symm, List.map_cons]

/-- A projection with a name shows, under this name, what its duplicates are told by. -/
theorem View.outputs_of_outputName? {ρ V : Type} (vw : View ρ V) {sc : Scope σ} {c : Core σ}
    {p : Expr σ} {p' e' : Expr Query} {n : String} (h : p.outputName? = some n)
    (hp : (sc.expr p).result = .ok p') (he : (sc.expr (c.identity p)).result = .ok e') (r : ρ) :
    vw.outputs p' r = [(some n, vw.value e' r)] := by
  rw [c.identity_of_outputName? h] at he
  rcases Expr.outputName?_eq_some h with ⟨column, rfl, rfl⟩ | ⟨e, rfl, hua, -⟩
  · obtain rfl := Except.ok.inj ((Scope.expr_column column).symm.trans hp)
    obtain rfl := Except.ok.inj ((Scope.expr_column column).symm.trans he)
    rfl
  · obtain ⟨e'', he'', rfl⟩ := Scope.expr_alias_eq_ok.1 hp
    rw [Expr.unaliased, hua] at he
    obtain rfl := Except.ok.inj (he''.symm.trans he)
    rfl

/-- **Projections with names** show what duplicates are told by. -/
theorem View.listed_eq_zip {ρ V : Type} (vw : View ρ V) {sc : Scope σ} {c : Core σ} (r : ρ) :
    ∀ {ps : List (Expr σ)} {columns partition : List (Expr Query)} {outputs : List String},
      ps.map Expr.outputName? = outputs.map some → (sc.exprs ps).result = .ok columns →
      (sc.exprs (ps.map c.identity)).result = .ok partition →
      vw.listed columns r = (outputs.map some).zip (vw.partKey partition r)
  | [], columns, partition, outputs, hn, hc, hp => by
    obtain rfl := List.map_eq_nil_iff.1 hn.symm
    obtain _ | _ := Scope.exprs_eq_ok.1 hc
    rfl
  | p :: ps, columns, partition, outputs, hn, hc, hp => by
    obtain ⟨n, outputs, rfl, hname, hrest⟩ := List.map_eq_cons_iff.1 hn.symm
    obtain _ | ⟨hc₁, hcs⟩ := Scope.exprs_eq_ok.1 hc
    obtain _ | ⟨hp₁, hps⟩ := Scope.exprs_eq_ok.1 hp
    have ih := listed_eq_zip vw r hrest.symm (Scope.exprs_eq_ok.2 hcs) (Scope.exprs_eq_ok.2 hps)
    rw [listed, List.flatMap_cons, ← listed, ih, vw.outputs_of_outputName? hname.symm hc₁ hp₁]
    rfl

/-- The rows with their ranks in the order, and their numbers among their duplicates. -/
def rankedQuery (names : SyntheticNames) (frame : QueryBody Query)
    (columns partition : List (Expr Query)) (keys : List (Key Query)) : Query :=
  .of { frame with
    columns :=
      [columns.map .expr,
        [.ranked ⟨.denseRank, [], keys⟩ names.order,
          .ranked ⟨.rowNumber, partition, keys⟩ names.duplicate]] }

/-- The condition that a row is the first of its duplicates. -/
def firstOfDuplicates (names : SyntheticNames) : Expr Query :=
  .equals (.named names.duplicate) (.int 1)

/-- The first of each group of duplicates with their positions in the order. -/
def positionsQuery (names : SyntheticNames) (outputs : List String) (ranked : Query) : Query :=
  .of
    { columns := [(outputs.map Expr.named).map .expr ++
        [.ranked ⟨.rowNumber, [], [⟨.named names.order, none⟩]⟩ names.offset]]
      rows := some (.derived ranked names.ranked)
      filters := [firstOfDuplicates names] }

/-- **The query** of a select of distinct rows in a foreign order, when its projections have
names. -/
theorem Scope.distinctOrder_eq_ok {sc : Scope σ} {s : SelectBody σ} {c : Core σ} {q : Query}
    {outputs : List String} {limit offset : Option Int64}
    (hoffset : s.offset = offset.map .int) (hlimit : s.limit = limit.map .int)
    (hn : (c.projections.map Expr.unmarked).map Expr.outputName? = outputs.map some)
    (h : (sc.distinctOrder s c).result = .ok q) :
    ∃ (columns partition : List (Expr Query)) (keys : List (Key Query)) (frame : QueryBody Query),
      (sc.exprs (c.projections.map Expr.unmarked)).result = .ok columns ∧
      (sc.exprs ((c.projections.map Expr.unmarked).map c.identity)).result = .ok partition ∧
      (sc.keys s.orders).result = .ok keys ∧ (sc.frame s c c.groups).result = .ok frame ∧
      q = match offset with
        | none => .of
          { distinct := true
            top := limit.map .int
            columns := [(outputs.map Expr.named ++ [Expr.named sc.names.order]).map .expr]
            rows := some
              (.derived (rankedQuery sc.names frame columns partition keys) sc.names.ranked)
            filters := [firstOfDuplicates sc.names]
            orders := [⟨.named sc.names.order, none⟩] }
        | some m => .of
          { distinct := true
            top := limit.map .int
            columns := [[.expr .star]]
            rows := some (.derived
              (positionsQuery sc.names outputs
                (rankedQuery sc.names frame columns partition keys)) sc.names.offsetRows)
            filters := [.binary (.named sc.names.offset) .gt (.int m)]
            orders := [⟨.named sc.names.offset, none⟩] } := by
  simp only [distinctOrder, Trace.bind_eq_ok, window_eq_ok, Expr.map_outerName hn, exprs_named,
    hoffset, hlimit, Except.ok.injEq] at h
  obtain ⟨columns, hcolumns, _, ⟨_, keys, hnil, hkeys, rfl⟩, _,
    ⟨partition, _, hpartition, hkeys', rfl⟩, frame, hframe, _, rfl, top, htop, off, hoff, hq⟩ := h
  obtain _ | _ := exprs_eq_ok.1 hnil
  obtain rfl := Except.ok.inj (hkeys.symm.trans hkeys')
  obtain rfl := expr?_int_eq_ok.1 htop
  obtain rfl := expr?_int_eq_ok.1 hoff
  obtain ⟨rows, filters, groups, having, -, -, -, -, rfl⟩ := frame_eq_ok.1 hframe
  refine ⟨columns, partition, keys, _, hcolumns, hpartition, hkeys, hframe, ?_⟩
  cases offset with
  | none =>
    obtain rfl := Except.ok.inj hq
    rw [List.map_append]
    rfl
  | some m =>
    obtain rfl := Except.ok.inj hq
    rfl

end

/-! ## The ranked rows -/

namespace Database

variable {ρ V : Type} [LinearOrder V] (db : Database ρ V) (names : SyntheticNames)
  (columns partition : List (Expr Query)) (keys : List (Key Query))

/-- The rank of a row as a value. -/
def rank (rows : List ρ) (r : ρ) : V :=
  db.int (db.source.denseRank ⟨.denseRank, [], keys⟩ rows r)

/-- A ranked row: its projections, its rank in the order, and its number among its duplicates. -/
def rankedRow (rows : List ρ) (x : ρ × Nat) : Tuple V :=
  db.source.listed columns x.1 ++
    [(some names.order, db.rank keys rows x.1), (some names.duplicate, db.int x.2)]

theorem lists_rankedRow {rows : List ρ} {l : List (ρ × Tuple V)} :
    db.source.Lists (columns.map .expr ++
        [.ranked ⟨.denseRank, [], keys⟩ names.order,
          .ranked ⟨.rowNumber, partition, keys⟩ names.duplicate]) rows l ↔
      ∃ nums, db.source.Ranks ⟨.rowNumber, partition, keys⟩ rows nums ∧
        l = (rows.zip nums).map fun x => (x.1, db.rankedRow names columns keys rows x) := by
  -- the two numbers of each row, before its projections
  have hzip : ∀ (rank : ρ → Nat) (rows : List ρ) (nums : List Nat),
      List.zipWith (fun n (x : ρ × Tuple V) => (x.1, (some names.order, db.source.number n) :: x.2))
          (rows.map rank)
          (List.zipWith (fun n x => (x.1, (some names.duplicate, db.source.number n) :: x.2)) nums
            (rows.map fun r => (r, []))) =
        (rows.zip nums).map fun x => (x.1,
          [(some names.order, db.int (rank x.1)), (some names.duplicate, db.int x.2)]) := by
    intro rank rows
    induction rows with
    | nil => intro nums; simp
    | cons r rows ih =>
      intro nums
      cases nums with
      | nil => simp
      | cons n nums =>
        simp only [List.map_cons, List.zipWith_cons_cons, List.zip_cons_cons, ih nums]
        rfl
  simp only [View.lists_append_exprs, View.Lists]
  constructor
  · rintro ⟨_, ⟨_, _, rfl, ⟨nums, _, hnums, rfl, rfl⟩, rfl⟩, rfl⟩
    refine ⟨nums, hnums, ?_⟩
    rw [hzip, List.map_map]
    rfl
  · rintro ⟨nums, hnums, rfl⟩
    refine ⟨_, ⟨_, _, rfl, ⟨nums, _, hnums, rfl, rfl⟩, rfl⟩, ?_⟩
    rw [hzip, List.map_map]
    rfl

/-- **The ranked rows** stand in any order, under some numbering of duplicates. -/
theorem yields_ranked_iff {σ : Type} {sc : Scope σ} {s : SelectBody σ} {c : Core σ}
    {groups : List (Expr σ)} {frame : QueryBody Query} {rows : List (Tuple V)}
    (hframe : (sc.frame s c groups).result = .ok frame) :
    db.Yields (rankedQuery names frame columns partition keys) rows ↔
      ∃ nums, db.source.Ranks ⟨.rowNumber, partition, keys⟩ (db.rows frame) nums ∧
        rows.Perm (((db.rows frame).zip nums).map
          (db.rankedRow names columns keys (db.rows frame))) := by
  obtain ⟨from', filters, groups, having, hfrom, -, -, -, rfl⟩ := Scope.frame_eq_ok.1 hframe
  rw [rankedQuery, yields_source_iff (Scope.rows_ne_derived hfrom),
    db.source.gives_unordered rfl rfl rfl]
  have hflatten : ∀ last : List (Column Query),
      [columns.map Column.expr, last].flatten = columns.map .expr ++ last := by simp
  simp only [hflatten, lists_rankedRow]
  constructor
  · rintro ⟨_, ⟨nums, hnums, rfl⟩, hrows⟩
    rw [List.map_map] at hrows
    exact ⟨nums, hnums, hrows⟩
  · rintro ⟨nums, hnums, hrows⟩
    refine ⟨_, ⟨nums, hnums, rfl⟩, ?_⟩
    rw [List.map_map]
    exact hrows

/-! ## The first of each group of duplicates -/

/-- The projections `columns` show what the duplicates are told by, under names that differ from
each other and from those of the compiler. -/
structure Shows (outputs : List String) : Prop where
  map_fst : ∀ r, (db.source.listed columns r).map Prod.fst = outputs.map some
  values_eq : ∀ r, Tuple.values (db.source.listed columns r) = db.source.partKey partition r
  nodup : ((outputs ++ names.toList).map Text.lower).Nodup

variable {db names columns partition keys} {outputs : List String} {rows : List ρ}

namespace Shows

variable (h : db.Shows names columns partition outputs)

include h

theorem differ : (outputs.map Text.lower).Nodup := by
  have hnd := h.nodup
  rw [List.map_append] at hnd
  exact (List.nodup_append.1 hnd).1

theorem lower_ne {name : String} (hname : name ∈ names.toList) :
    ∀ n ∈ outputs, Text.lower n ≠ Text.lower name := by
  have hnd := h.nodup
  rw [List.map_append] at hnd
  intro n hn
  exact (List.nodup_append.1 hnd).2.2 _ (List.mem_map_of_mem hn) _ (List.mem_map_of_mem hname)

theorem order_ne_duplicate : Text.lower names.order ≠ Text.lower names.duplicate := by
  have hnd := h.nodup
  rw [List.map_append] at hnd
  have hnames := (List.nodup_append.1 hnd).2.1
  simp only [SyntheticNames.toList, List.map_cons, List.nodup_cons, List.mem_cons, not_or] at hnames
  exact hnames.2.2.1.1

theorem get?_order (x : ρ × Nat) :
    (db.rankedRow names columns keys rows x).get? names.order = some (db.rank keys rows x.1) := by
  rw [rankedRow, Tuple.get?_append_right (h.map_fst x.1)
    (h.lower_ne (by simp [SyntheticNames.toList])), Tuple.get?_cons_self]

theorem get?_duplicate (x : ρ × Nat) :
    (db.rankedRow names columns keys rows x).get? names.duplicate = some (db.int x.2) := by
  rw [rankedRow, Tuple.get?_append_right (h.map_fst x.1)
    (h.lower_ne (by simp [SyntheticNames.toList])), Tuple.get?_cons_ne h.order_ne_duplicate,
    Tuple.get?_cons_self]

/-- The output names show the projections of a ranked row. -/
theorem listed_rankedRow (x : ρ × Nat) :
    (db.derived names.ranked).listed (outputs.map .named) (db.rankedRow names columns keys rows x) =
      db.source.listed columns x.1 :=
  db.listed_front (h.map_fst x.1) h.differ _ _

theorem derivedValue_order (x : ρ × Nat) :
    db.derivedValue names.ranked (db.rankedRow names columns keys rows x) (.named names.order) =
      db.rank keys rows x.1 := by
  simp [Expr.named, derivedValue, h.get?_order]

/-- The rows that are first among their duplicates, of all ranked rows in any order. -/
theorem filter_first_perm {nums : List Nat} {ranked : List (Tuple V)}
    (hranked : ranked.Perm ((rows.zip nums).map (db.rankedRow names columns keys rows))) :
    (ranked.filter fun t => [firstOfDuplicates names].all (db.meets names.ranked t)).Perm
      ((View.firsts rows nums).map fun r => db.rankedRow names columns keys rows (r, 1)) := by
  have hmeets : ∀ x, [firstOfDuplicates names].all
      (db.meets names.ranked (db.rankedRow names columns keys rows x)) = decide (x.2 = 1) := by
    intro x
    have hvalue : db.derivedValue names.ranked (db.rankedRow names columns keys rows x)
        (.named names.duplicate) = db.int x.2 := by
      simp [Expr.named, derivedValue, h.get?_duplicate]
    have hone : ∀ t, db.derivedValue names.ranked t (.int 1) = db.int 1 := fun _ => rfl
    simp only [firstOfDuplicates, Expr.equals, List.all_cons, List.all_nil, Bool.and_true, meets,
      hvalue, hone, db.isNull_int, Bool.not_false, Bool.true_and, EmbeddingLike.apply_eq_iff_eq,
      decide_eq_decide]
    omega
  refine (hranked.filter _).trans (List.Perm.of_eq ?_)
  rw [List.filter_map, View.firsts, List.map_map]
  have hfilter : (rows.zip nums).filter ((fun t => [firstOfDuplicates names].all
      (db.meets names.ranked t)) ∘ db.rankedRow names columns keys rows) =
        (rows.zip nums).filter fun x => x.2 = 1 :=
    List.filter_congr fun x _ => hmeets x
  rw [hfilter]
  refine List.map_congr_left fun x hx => ?_
  obtain ⟨r, n⟩ := x
  obtain rfl : n = 1 := by simpa using (List.mem_filter.1 hx).2
  rfl

end Shows

/-- Rows that are sorted by their ranks are sorted by their keys. -/
theorem isSort_rank_iff {firsts sorted : List ρ} (hfirsts : ∀ r ∈ firsts, r ∈ rows) :
    IsSort (db.rank keys rows) firsts sorted ↔ IsSort (db.source.sortKey keys) firsts sorted := by
  refine IsSort.key_iff fun a _ b hb => ?_
  rw [rank, rank, db.int.le_iff_le, Int.ofNat_le]
  exact db.source.denseRank_le_iff (hfirsts b hb)

/-! ## What the queries around the ranked rows give -/

/-- `sorted` are the rows that are first among their duplicates, under some numbering of these, in
an order by their keys. -/
def FirstsSorted (db : Database ρ V) (partition : List (Expr Query)) (keys : List (Key Query))
    (rows sorted : List ρ) : Prop :=
  ∃ nums, db.source.Ranks ⟨.rowNumber, partition, keys⟩ rows nums ∧
    IsSort (db.source.sortKey keys) (View.firsts rows nums) sorted

section

variable {σ : Type} {sc : Scope σ} {s : SelectBody σ} {c : Core σ} {groups : List (Expr σ)}
  {frame : QueryBody Query} {result : List (Tuple V)}

/-- **A query over the ranked rows** that keeps the first of each group sees representatives of the
groups, in any order. -/
theorem yields_over_ranked (h : db.Shows names columns partition outputs)
    (hframe : (sc.frame s c groups).result = .ok frame) {q : QueryBody Query} {B : List ρ → Prop}
    (hq : q.rows = some (.derived (rankedQuery names frame columns partition keys) names.ranked) ∧
      q.groups = [] ∧ q.having = none)
    (hlist : ∀ column ∈ q.columns.flatten, column.IsReference)
    (hfilters : q.filters = [firstOfDuplicates names])
    (hgives : ∀ {firsts : List ρ} {ranked : List (Tuple V)},
      Represents (db.source.sortKey keys) (db.source.partKey partition) (db.rows frame) firsts →
      ranked.Perm (firsts.map fun r => db.rankedRow names columns keys (db.rows frame) (r, 1)) →
      ((db.derived names.ranked).Gives db.rowCount q ranked result ↔
        ∃ sorted, IsSort (db.rank keys (db.rows frame)) firsts sorted ∧ B sorted)) :
    db.Yields (.of q) result ↔
      ∃ sorted, FirstsSorted db partition keys (db.rows frame) sorted ∧ B sorted := by
  obtain ⟨hrows, hgroups, hhaving⟩ := hq
  rw [yields_derived_iff hrows hgroups hhaving hlist, hfilters]
  constructor
  · rintro ⟨ranked, hranked, hresult⟩
    obtain ⟨nums, hnums, hperm⟩ :=
      (db.yields_ranked_iff names columns partition keys hframe).1 hranked
    have hrep := db.source.represents_of_ranks hnums
    obtain ⟨sorted, hsorted, hB⟩ := (hgives hrep (h.filter_first_perm hperm)).1 hresult
    exact ⟨sorted, ⟨nums, hnums, (isSort_rank_iff hrep.mem).1 hsorted⟩, hB⟩
  · rintro ⟨sorted, ⟨nums, hnums, hsorted⟩, hB⟩
    have hrep := db.source.represents_of_ranks hnums
    exact ⟨_, (db.yields_ranked_iff names columns partition keys hframe).2
      ⟨nums, hnums, List.Perm.refl _⟩,
      (hgives hrep (h.filter_first_perm (List.Perm.refl _))).2
        ⟨sorted, (isSort_rank_iff hrep.mem).2 hsorted, hB⟩⟩

/-- **Without an offset** the query returns the first rows in order, with their ranks. -/
theorem yields_distinct_iff (h : db.Shows names columns partition outputs)
    (hframe : (sc.frame s c groups).result = .ok frame) (top : Option (Expr Query)) :
    db.Yields (.of
        { distinct := true
          top := top
          columns := [(outputs.map Expr.named ++ [Expr.named names.order]).map .expr]
          rows := some (.derived (rankedQuery names frame columns partition keys) names.ranked)
          filters := [firstOfDuplicates names]
          orders := [⟨.named names.order, none⟩] }) result ↔
      ∃ sorted, FirstsSorted db partition keys (db.rows frame) sorted ∧
        result = (takeTop (top.map db.rowCount) sorted).map fun r =>
          db.source.listed columns r ++ [(some names.order, db.rank keys (db.rows frame) r)] := by
  have hout : ∀ r, (db.derived names.ranked).listed
      (outputs.map Expr.named ++ [Expr.named names.order])
      (db.rankedRow names columns keys (db.rows frame) (r, 1)) =
        db.source.listed columns r ++ [(some names.order, db.rank keys (db.rows frame) r)] := by
    intro r
    rw [View.listed, List.flatMap_append, ← View.listed, h.listed_rankedRow]
    exact congrArg (fun v => _ ++ [(some names.order, v)]) (h.derivedValue_order (r, 1))
  have hkey : ∀ r, (db.derived names.ranked).withOutput.value (.named names.order)
      (db.rankedRow names columns keys (db.rows frame) (r, 1),
        db.source.listed columns r ++ [(some names.order, db.rank keys (db.rows frame) r)]) =
        db.rank keys (db.rows frame) r := by
    intro r
    rw [Expr.named, View.withOutput]
    simp only
    rw [Tuple.get?_append_right (h.map_fst r) (h.lower_ne (by simp [SyntheticNames.toList])),
      Tuple.get?_cons_self]
    rfl
  refine yields_over_ranked h hframe ⟨rfl, rfl, rfl⟩ ?_ rfl fun {firsts ranked} hrep hranked =>
    View.gives_sorted _ (List.append_nil _) rfl (by decide) hout hkey (fun _ => ?_) hranked
  · intro column hcolumn
    simp only [List.flatten_cons, List.flatten_nil, List.append_nil, List.map_append, List.map_map,
      List.mem_append, List.mem_map, List.map_cons, List.map_nil, List.mem_singleton] at hcolumn
    rcases hcolumn with ⟨n, -, rfl⟩ | rfl
    · trivial
    · trivial
  · refine List.pairwise_map.2 ((List.pairwise_map.1 hrep.nodup).imp fun {r r'} hne he => hne ?_)
    rw [Tuple.values_append, Tuple.values_append, h.values_eq, h.values_eq] at he
    exact (List.append_inj' he rfl).1

/-- **The positions** of the first rows in order. -/
theorem yields_positions_iff (h : db.Shows names columns partition outputs)
    (hframe : (sc.frame s c groups).result = .ok frame) :
    db.Yields (positionsQuery names outputs (rankedQuery names frame columns partition keys))
        result ↔
      ∃ sorted, FirstsSorted db partition keys (db.rows frame) sorted ∧
        result.Perm ((sorted.zipIdx 1).map fun x =>
          db.source.listed columns x.1 ++ [(some names.offset, db.int x.2)]) := by
  have hcolumns : ∀ w name, [(outputs.map Expr.named).map Column.expr ++
      [.ranked w name]].flatten = (outputs.map Expr.named).map .expr ++ .ranked w name ::
        ([] : List (Expr Query)).map .expr := fun _ _ => List.append_nil _
  refine yields_over_ranked h hframe ⟨rfl, rfl, rfl⟩ ?_ rfl fun {firsts ranked} hrep hranked => ?_
  · rw [hcolumns]
    intro column hcolumn
    simp only [List.map_map, List.map_nil, List.mem_append, List.mem_map,
      List.mem_singleton] at hcolumn
    rcases hcolumn with ⟨n, -, rfl⟩ | rfl
    · trivial
    · trivial
  have hsort : ∀ sorted, IsSort (fun r => (db.derived names.ranked).sortKey
      [⟨.named names.order, none⟩] (db.rankedRow names columns keys (db.rows frame) (r, 1)))
        firsts sorted ↔ IsSort (db.rank keys (db.rows frame)) firsts sorted := by
    refine fun sorted => IsSort.key_iff fun a _ b _ => ?_
    rw [View.sortKey_single_le_iff _ (by decide)]
    exact iff_of_eq (congrArg₂ _ (h.derivedValue_order (a, 1)) (h.derivedValue_order (b, 1)))
  have hrow : ∀ sorted : List ρ,
      ((sorted.map fun r => db.rankedRow names columns keys (db.rows frame) (r, 1)).zipIdx 1).map
          ((db.derived names.ranked).numberedRow (outputs.map Expr.named) names.offset []) =
        (sorted.zipIdx 1).map fun x =>
          db.source.listed columns x.1 ++ [(some names.offset, db.int x.2)] := by
    intro sorted
    rw [List.zipIdx_map, List.map_map]
    refine List.map_congr_left fun x _ => ?_
    exact congrArg (· ++ [(some names.offset, db.int x.2)]) (h.listed_rankedRow (x.1, 1))
  rw [View.gives_numbered _ (hcolumns _ _) rfl rfl rfl]
  simp only [IsSort.perm_iff hranked, IsSort.map_iff, hsort]
  constructor
  · rintro ⟨_, ⟨sorted, hsorted, rfl⟩, hperm⟩
    rw [hrow] at hperm
    exact ⟨sorted, hsorted, hperm⟩
  · rintro ⟨sorted, hsorted, hperm⟩
    rw [← hrow] at hperm
    exact ⟨_, ⟨sorted, hsorted, rfl⟩, hperm⟩

/-- **With an offset** the query returns the first rows in order from the offset on, with their
positions. -/
theorem yields_offset_iff (h : db.Shows names columns partition outputs)
    (hframe : (sc.frame s c groups).result = .ok frame) (top : Option (Expr Query)) {m : Int64}
    (hm : 0 ≤ m) :
    db.Yields (.of
        { distinct := true
          top := top
          columns := [[.expr .star]]
          rows := some (.derived
            (positionsQuery names outputs (rankedQuery names frame columns partition keys))
            names.offsetRows)
          filters := [.binary (.named names.offset) .gt (.int m)]
          orders := [⟨.named names.offset, none⟩] }) result ↔
      ∃ sorted, FirstsSorted db partition keys (db.rows frame) sorted ∧
        result = (takeTop (top.map db.rowCount) ((sorted.zipIdx 1).drop m.toInt.toNat)).map fun x =>
          db.source.listed columns x.1 ++ [(some names.offset, db.int x.2)] := by
  have hposition : ∀ x : ρ × Nat, Tuple.get?
      (db.source.listed columns x.1 ++ [(some names.offset, db.int x.2)]) names.offset =
        some (db.int x.2) := by
    intro x
    rw [Tuple.get?_append_right (h.map_fst x.1) (h.lower_ne (by simp [SyntheticNames.toList])),
      Tuple.get?_cons_self]
  have hoffset : ∀ t,
      db.derivedValue names.offsetRows t (.int m) = db.int (m.toInt.toNat : Nat) := by
    intro t
    rw [Int.toNat_of_nonneg (Int64.le_iff_toInt_le.1 hm)]
    rfl
  refine db.yields_page ⟨rfl, rfl, rfl⟩ (show _ = [Expr.star].map Column.expr from rfl) ?_ rfl rfl
    (by decide) hoffset (fun x => ?_) (fun x => List.append_nil _) (fun x => ?_)
    (fun x y _ he => ?_) fun _ => yields_positions_iff h hframe
  · intro column hcolumn
    obtain rfl := List.mem_singleton.1 hcolumn
    trivial
  · simp [Expr.named, derivedValue, hposition]
  · simp [Expr.named, View.withOutput, hposition]
  · rw [Tuple.values_append, Tuple.values_append] at he
    have hvalue := (List.append_inj' he rfl).2
    exact Int.ofNat_inj.1 (db.int.injective (List.cons.inj hvalue).1)

end

end Database

/-! ## Distinct rows in a foreign order -/

/-- The names of projections are in use, so those of the compiler differ from them. -/
theorem SelectBody.nodup_outputs {σ : Type} {s : SelectBody σ} {c : Core σ} {outputs : List String}
    (hc : s.cores.head? = some c)
    (hn : (c.projections.map Expr.unmarked).map Expr.outputName? = outputs.map some)
    (hdiffer : (outputs.map Text.lower).Nodup) :
    ((outputs ++ (SyntheticNames.avoiding s.names).toList).map Text.lower).Nodup := by
  rw [List.map_append, List.nodup_append]
  refine ⟨hdiffer, SyntheticNames.nodup_avoiding _, ?_⟩
  intro a ha b hb
  obtain ⟨n, hn', rfl⟩ := List.mem_map.1 ha
  obtain ⟨name, hname, rfl⟩ := List.mem_map.1 hb
  have hmem : some n ∈ (c.projections.map Expr.unmarked).map Expr.outputName? := by
    rw [hn]
    exact List.mem_map_of_mem hn'
  rw [List.map_map] at hmem
  obtain ⟨p, hp, hpn⟩ := List.mem_map.1 hmem
  have hused : n ∈ p.names := by
    rw [← p.names_unmarked]
    exact Expr.mem_names_of_outputName? hpn
  exact (SyntheticNames.lower_ne_of_mem_avoiding hname
    (SelectBody.mem_names_of_mem_projections hc hp hused)).symm

/-- Compiled projections with names show what duplicates are told by. -/
theorem Database.shows_of_eq_ok {σ ρ V : Type} [LinearOrder V] (db : Database ρ V) {sc : Scope σ}
    {c : Core σ} {ps : List (Expr σ)} {columns partition : List (Expr Query)}
    {outputs : List String} (hn : ps.map Expr.outputName? = outputs.map some)
    (hcolumns : (sc.exprs ps).result = .ok columns)
    (hpartition : (sc.exprs (ps.map c.identity)).result = .ok partition)
    (hnd : ((outputs ++ sc.names.toList).map Text.lower).Nodup) :
    db.Shows sc.names columns partition outputs := by
  have hlen : partition.length = outputs.length := by
    have h₁ := (Scope.exprs_eq_ok.1 hpartition).length_eq
    have h₂ := congrArg List.length hn
    simp only [List.length_map] at h₁ h₂
    omega
  have hzip := fun r => db.source.listed_eq_zip r hn hcolumns hpartition
  refine ⟨fun r => ?_, fun r => ?_, hnd⟩
  · rw [hzip]
    exact List.map_fst_zip (by simp [View.partKey, hlen])
  · rw [hzip]
    exact List.map_snd_zip (by simp [View.partKey, hlen])

/-- Results that show the sorted first rows show the sorted groups. -/
theorem Database.exists_result_iff {ρ V : Type} [LinearOrder V] {db : Database ρ V}
    {partition : List (Expr Query)} {keys : List (Key Query)} {rows : List ρ} {q : Query}
    {shown : List ρ → List (Tuple V)} {page : List (List V) → List (Tuple V)}
    (hyields : ∀ result, db.Yields q result ↔
      ∃ sorted, FirstsSorted db partition keys rows sorted ∧ result = shown sorted)
    (hshown : ∀ sorted, (shown sorted).map List.dropLast =
      page (sorted.map (db.source.partKey partition))) (out : List (Tuple V)) :
    (∃ result, db.Yields q result ∧ result.map List.dropLast = out) ↔
      ∃ groups, IsGroupSort (db.source.sortKey keys) (db.source.partKey partition) rows groups ∧
        out = page groups := by
  rw [← db.source.exists_firsts_iff fun groups => out = page groups]
  constructor
  · rintro ⟨result, hresult, rfl⟩
    obtain ⟨sorted, ⟨nums, hnums, hsorted⟩, rfl⟩ := (hyields result).1 hresult
    exact ⟨nums, sorted, hnums, hsorted, hshown sorted⟩
  · rintro ⟨nums, sorted, hnums, hsorted, rfl⟩
    exact ⟨_, (hyields _).2 ⟨sorted, ⟨nums, hnums, hsorted⟩, rfl⟩, hshown sorted⟩

/-- **One level** of a select of distinct rows in a foreign order. -/
theorem Database.yields_distinctOrder {σ ρ V : Type} [LinearOrder V] (db : Database ρ V)
    {sc : Scope σ} {s : SelectBody σ} {c : Core σ} {q : Query} {outputs : List String}
    {limit offset : Option Int64}
    (hn : (c.projections.map Expr.unmarked).map Expr.outputName? = outputs.map some)
    (hnd : ((outputs ++ sc.names.toList).map Text.lower).Nodup)
    (hoffset : s.offset = offset.map .int) (hm : ∀ m ∈ offset, 0 ≤ m)
    (hlimit : s.limit = limit.map .int) (h : (sc.distinctOrder s c).result = .ok q) :
    ∃ (keys : List (Key Query)) (frame : QueryBody Query) (values : List (Expr Query)),
      (sc.keys s.orders).result = .ok keys ∧ (sc.frame s c c.groups).result = .ok frame ∧
      (sc.exprs ((c.projections.map Expr.unmarked).map Expr.unaliased)).result = .ok values ∧
      ∀ out, (∃ result, db.Yields q result ∧ result.map List.dropLast = out) ↔
        ∃ groups, IsGroupSort (db.source.sortKey keys) (db.source.partKey values) (db.rows frame)
            groups ∧
          out = (takeTop (limit.map fun n => n.toInt.toNat)
            (groups.drop (offset.elim 0 fun m => m.toInt.toNat))).map (outputs.map some).zip := by
  obtain ⟨columns, values, keys, frame, hcolumns, hvalues, hkeys, hframe, rfl⟩ :=
    Scope.distinctOrder_eq_ok hoffset hlimit hn h
  have hshows := db.shows_of_eq_ok hn hcolumns hvalues hnd
  have hidentity : (c.projections.map Expr.unmarked).map c.identity =
      (c.projections.map Expr.unmarked).map Expr.unaliased := by
    refine List.map_congr_left fun p hp => ?_
    obtain ⟨n, -, hpn⟩ := List.mem_map.1 (hn ▸ List.mem_map_of_mem hp : p.outputName? ∈ _)
    exact c.identity_of_outputName? hpn.symm
  have hlisted : db.source.listed columns = fun r =>
      (outputs.map some).zip (db.source.partKey values r) :=
    funext fun r => db.source.listed_eq_zip r hn hcolumns hvalues
  have htop : (limit.map Expr.int).map db.rowCount = limit.map fun n => n.toInt.toNat := by
    rw [Option.map_map]
    rfl
  refine ⟨keys, frame, values, hkeys, hframe, hidentity ▸ hvalues, ?_⟩
  cases offset with
  | none =>
    refine exists_result_iff (fun result => yields_distinct_iff hshows hframe _) fun sorted => ?_
    simp only [List.map_map, Function.comp_def, List.dropLast_concat, hlisted, htop,
      Option.elim_none, List.drop_zero, ← map_takeTop]
  | some m =>
    refine exists_result_iff
      (fun result => yields_offset_iff hshows hframe _ (hm m rfl)) fun sorted => ?_
    have hfst :
        ((sorted.zipIdx 1).drop m.toInt.toNat).map Prod.fst = sorted.drop m.toInt.toNat := by
      rw [List.map_drop, List.zipIdx_map_fst]
    simp only [List.map_map, Function.comp_def, List.dropLast_concat, hlisted, htop,
      Option.elim_some, ← List.map_drop, ← hfst, ← map_takeTop]

/-- **Distinct rows in a foreign order.** A select of distinct rows whose order is by something else
has a text when it compiles, and whatever the rows of its first core are, its query returns this,
beside one more column at the end that carries the order: each combination of projected values once,
in some order of the least sort keys among the rows that have it, from position `m + 1` on and as
many as the limit says. Every such order is a possible result. -/
theorem Select.yields_groups_iff {ρ V : Type} [LinearOrder V] (db : Database ρ V)
    {options : Options} {s : Select} {c : Core Select} {limit offset : Option Int64}
    {outputs : List String} {q : Query} (hq : (s.compile options).result = .ok q)
    (hstrategy : s.strategy? options = some .distinctOrder)
    (hc : s.body.cores.head? = some c)
    (houtputs : c.projections.map (fun p => p.unmarked.outputName?) = outputs.map some)
    (hdiffer : (outputs.map Text.lower).Nodup)
    (hoffset : s.body.offset = offset.map .int) (hm : ∀ m ∈ offset, 0 ≤ m)
    (hlimit : s.body.limit = limit.map .int) :
    Statement.sql options (.select s) = .ok (q.sql options.collation) ∧
    ∃ (orders : List (SortKey Compiled)) (keys : List (Key Query)) (frame : QueryBody Query)
        (values : List (Expr Query)),
      ((s.scope options).distinctKeys (s.level options).orders).result = .ok orders ∧
      ((s.scope options).keys orders).result = .ok keys ∧
      ((s.scope options).frame (s.level options) (c.map (compiled options))
        (c.map (compiled options)).groups).result = .ok frame ∧
      ((s.scope options).exprs (c.projections.map fun p =>
        (p.map (compiled options)).unmarked.unaliased)).result = .ok values ∧
      ∀ out, (∃ result, db.Yields q result ∧ result.map List.dropLast = out) ↔
        ∃ groups, IsGroupSort (db.source.sortKey keys) (db.source.partKey values) (db.rows frame)
            groups ∧
          out = (takeTop (limit.map fun n => n.toInt.toNat)
            (groups.drop (offset.elim 0 fun m => m.toInt.toNat))).map (outputs.map some).zip := by
  refine ⟨Select.sql_eq hq, ?_⟩
  obtain ⟨orders, horders, hdistinct⟩ := Select.distinctOrder_eq_ok hc hq hstrategy
  have hn : (((c.map (compiled options)).projections.map Expr.unmarked).map Expr.outputName?) =
      outputs.map some := by
    rw [← houtputs, Core.map, List.map_map, List.map_map]
    refine List.map_congr_left fun p _ => ?_
    rw [Function.comp_apply, Function.comp_apply, Expr.unmarked_map, Expr.outputName?_map]
  have hnd : ((outputs ++ (s.scope options).names.toList).map Text.lower).Nodup := by
    rw [Select.names_scope]
    exact SelectBody.nodup_outputs (Select.level_cores_head? options hc) hn hdiffer
  have hoffset : { s.level options with orders := orders }.offset = offset.map .int :=
    Select.level_int options hoffset
  have hlimit : { s.level options with orders := orders }.limit = limit.map .int :=
    Select.level_int options hlimit
  obtain ⟨keys, frame, values, hkeys, hframe, hvalues, hyields⟩ :=
    db.yields_distinctOrder hn hnd hoffset hm hlimit hdistinct
  refine ⟨orders, keys, frame, values, horders, hkeys, hframe, ?_, hyields⟩
  rw [Core.map, List.map_map, List.map_map] at hvalues
  exact hvalues

/-- Four rows of a column `a` and a column `b`. -/
def fourPairs : Database (Int × Int) Int where
  int := RelEmbedding.refl _
  isNull _ := false
  isNull_int _ := rfl
  rows _ := [(1, 30), (2, 10), (1, 5), (2, 20)]
  value e r :=
    match e with
    | .column c => if c.name = "a" then r.1 else r.2
    | _ => 0
  whole _ r := [(some "a", r.1), (some "b", r.2)]
  otherValue _ _ := 0
  otherTest _ _ := false
  otherCount _ := 0

/-- The different values of `a` after the first, in the order of `b`. -/
def secondGroup : Select :=
  .of
    { cores := [{ projections := [.named "a"], source := some (.table { name := "t" })
                  distinct := true }]
      orders := [(Expr.named "b").asc]
      offset := some (.int 1) }

theorem yields_secondGroup_iff :
    ∃ q, (secondGroup.compile {}).result = .ok q ∧
      ∀ out, (∃ result, fourPairs.Yields q result ∧ result.map List.dropLast = out) ↔
        out = [[(some "a", 2)]] := by
  refine ⟨_, rfl, fun out => ?_⟩
  obtain ⟨-, orders, keys, frame, values, horders, hkeys, -, hvalues, hyields⟩ :=
    Select.yields_groups_iff fourPairs (s := secondGroup) rfl rfl rfl
      (show _ = ["a"].map some from rfl) (by decide) (show _ = (some 1).map Expr.int from rfl)
      (by rintro _ ⟨⟩; decide) (show _ = (none : Option Int64).map Expr.int from rfl)
  obtain rfl : _ = orders := Except.ok.inj horders
  obtain rfl : _ = keys := Except.ok.inj hkeys
  obtain rfl : _ = values := Except.ok.inj hvalues
  -- the first rows of the two groups, which are sorted
  have hrep : Represents (fourPairs.source.sortKey [⟨.named "b", some .asc⟩])
      (fourPairs.source.partKey [.named "a"]) [(1, 30), (2, 10), (1, 5), (2, 20)]
      [(1, 5), (2, 10)] := by
    refine ⟨by decide, by decide, by decide, ?_⟩
    simp only [View.sortKey_single_le_iff _ (show some Direction.asc ≠ some .desc by decide)]
    decide
  have hlt : List.Pairwise (fun f f' => fourPairs.source.sortKey [⟨.named "b", some .asc⟩] f <
      fourPairs.source.sortKey [⟨.named "b", some .asc⟩] f') [(1, 5), (2, 10)] := by
    have hpairs : List.Pairwise (fun f f' => f.2 < f'.2) [((1 : Int), (5 : Int)), (2, 10)] := by
      decide
    exact hpairs.imp fun h => View.sortKey_single_lt _ (by decide) h
  rw [hyields]
  constructor
  · rintro ⟨groups, hgroups, rfl⟩
    obtain ⟨sorted, hsorted, rfl⟩ := hrep.exists_sort hgroups
    rw [(IsSort.iff_eq_of_lt (List.Perm.refl _) hlt).1 hsorted]
    rfl
  · rintro rfl
    exact ⟨_, hrep.isGroupSort (hlt.imp le_of_lt), rfl⟩

end Transact
