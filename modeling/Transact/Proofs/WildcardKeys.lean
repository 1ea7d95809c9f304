import Transact.Proofs.DenseRank
import Transact.Proofs.Limit
import Transact.Proofs.WindowOrder

/-!
# Wildcards among keys

The server takes no wildcard in `GROUP BY`, `PARTITION BY` or the order of a window. A select that
has none there may still be given one by the compiler, which groups and partitions by what is
projected.

* `Query.keyExprs`: what a query groups, partitions and ranks its rows by.
* `Shape.isWildcard_rankable?`: a dense rank has no wildcards among its keys.
* `Shape.sparesWildcards_groups`, `Shape.sparesWildcards_numberedGroups`: a single distinct
  projection is grouped by what it is built on, which may be a wildcard.
* `Core.isWildcard_identity_iff`: duplicates are told by a wildcard, unless it is that of the base
  table, whose primary key is known.
* `Select.keysSpareWildcards_iff`: when a compiled select has no wildcards among its keys.
-/

set_option autoImplicit false

namespace Transact

section

variable {σ τ : Type}

/-! ## Keys -/

/-- The expression is `*`, or all columns of a table. -/
def Expr.isWildcard : Expr σ → Bool
  | .wildcard _ => true
  | _ => false

theorem Expr.isWildcard_iff {e : Expr σ} : e.isWildcard = true ↔ ∃ table, e = .wildcard table := by
  cases e <;> simp [isWildcard]

theorem Expr.isWildcard_map (f : σ → τ) (e : Expr σ) : (e.map f).isWildcard = e.isWildcard := by
  cases e <;> rfl

/-- None of the expressions is a wildcard. -/
def SparesWildcards (es : List (Expr σ)) : Prop := ∀ e ∈ es, e.isWildcard = false

@[simp] theorem sparesWildcards_nil : SparesWildcards ([] : List (Expr σ)) := List.forall_mem_nil _

@[simp] theorem sparesWildcards_append {es es' : List (Expr σ)} :
    SparesWildcards (es ++ es') ↔ SparesWildcards es ∧ SparesWildcards es' :=
  List.forall_mem_append

theorem sparesWildcards_map (f : σ → τ) (es : List (Expr σ)) :
    SparesWildcards (es.map (·.map f)) ↔ SparesWildcards es := by
  simp [SparesWildcards, Expr.isWildcard_map]

/-- The expressions that a window partitions and sorts rows by. -/
def Window.exprs (w : Window σ) : List (Expr σ) := w.partition ++ w.orders.map (·.expr)

end

/-- What the query groups its rows by, and what its windows partition and sort them by. -/
def Query.keyExprs (q : Query) : List (Expr Query) :=
  q.body.groups ++ q.windows.flatMap Window.exprs

/-- No key of the query or of a derived table below it is a wildcard. -/
def Query.KeysSpareWildcards (q : Query) : Prop := ∀ r, q.Draws r → SparesWildcards r.keyExprs

theorem Query.HasLevels.spares_iff {q : Query}
    {levels : List (List (Window Query) × List (Expr Query))} (h : q.HasLevels levels) :
    q.KeysSpareWildcards ↔
      ∀ l ∈ levels, SparesWildcards (l.2 ++ l.1.flatMap Window.exprs) :=
  h fun l => SparesWildcards (l.2 ++ l.1.flatMap Window.exprs)

section

variable {σ : Type} {sc : Scope σ} {s : SelectBody σ} {c : Core σ} {q : Query}

theorem Scope.isWildcard_expr {e : Expr σ} {e' : Expr Query} (h : (sc.expr e).result = .ok e') :
    e'.isWildcard = e.isWildcard := by
  rw [← e'.isWildcard_map fun _ => (), ← e.isWildcard_map fun _ => ()]
  rw [Expr.map_unit_mapM h]

theorem Scope.sparesWildcards_exprs {es : List (Expr σ)} {es' : List (Expr Query)}
    (h : (sc.exprs es).result = .ok es') : SparesWildcards es' ↔ SparesWildcards es := by
  constructor
  · intro hall e he
    obtain ⟨e', he', hexpr⟩ := exists_of_mem_left h he
    rw [← isWildcard_expr hexpr]
    exact hall e' he'
  · intro hall e' he'
    obtain ⟨e, he, hexpr⟩ := exists_of_mem_right h he'
    rw [isWildcard_expr hexpr]
    exact hall e he

/-! ## Ranks -/

theorem sparesWildcards_pageKeys (base : Option TableRef) {orders : List (SortKey σ)}
    (h : SparesWildcards (orders.map (·.expr))) :
    SparesWildcards ((pageKeys orders base).map (·.expr)) := by
  unfold pageKeys
  split
  · exact h
  all_goals simp [SparesWildcards, Expr.asc, Expr.isWildcard]

/-- **A projection is ranked by no wildcard**: all columns of a table by its primary key, if at
all. -/
theorem Shape.isWildcard_rankable? {sh : Shape} {base : Option TableRef} {p e : Expr σ}
    (h : sh.rankable? base p = some e) : e.isWildcard = false := by
  unfold rankable? at h
  simp only at h
  split at h
  · split at h
    · obtain ⟨key, -, rfl⟩ := Option.map_eq_some_iff.1 h
      rfl
    · cases h
  · cases h
  · rename_i hstar _
    obtain rfl := Option.some.inj h
    generalize hx : (if sh.hasCall then p.unmarked else p.bare).unaliased = x at hstar
    cases x with
    | wildcard table => cases table <;> simp_all
    | _ => rfl

theorem Shape.sparesWildcards_denseKeys [BEq σ] {sh : Shape} {keys : List (SortKey σ)}
    (h : (sh.denseKeys s c).result = .ok keys) (horders : SparesWildcards (s.orders.map (·.expr))) :
    SparesWildcards (keys.map (·.expr)) := by
  by_cases hkeys : c.projections.foldl (sh.withProjection c.baseTable?) s.orders = []
  · rw [denseKeys_result_of_nil hkeys, s.rowKeys_result] at h
    rw [← Except.ok.inj h]
    exact sparesWildcards_pageKeys _ horders
  · rw [sh.denseKeys_result_eq s c hkeys] at h
    intro e he
    obtain ⟨k, hk, rfl⟩ := List.mem_map.1 he
    rw [← Except.ok.inj h] at hk
    rcases mem_denseKeys hk with hk | ⟨p, -, hp⟩
    · exact horders _ (List.mem_map_of_mem hk)
    · exact isWildcard_rankable? hp

/-! ## Groups -/

/-- The select is grouped by the value of its one projection, which is marked: on a page, and for a
limit unless all columns of a table are projected. -/
def SelectBody.groupsByValue (s : SelectBody σ) (c : Core σ) : Bool :=
  c.singleDistinct && c.groups.isEmpty && (s.offset.isSome || s.limit.isSome && !c.wholeTable)

/-- What the projections are built on, without aliases. -/
def Core.values (c : Core σ) : List (Expr σ) := c.projections.map fun p => p.bare.unaliased

/-- A marked projection is no call, so it is reduced to what it is built on. -/
theorem Shape.values_numberedProjections [BEq σ] (h : c.singleDistinct = true) :
    ((Shape.of s c).numberedProjections c).map (fun p => p.bare.unaliased) = c.values := by
  obtain ⟨p, hps, hmarked⟩ := Core.singleDistinct_iff.1 h
  have hcall : (Shape.of s c).hasCall = false := by
    simp [Shape.of, hps, Expr.isCall_of_isMarked hmarked]
  simp [numberedProjections, hcall, Core.values, Expr.bare_bare]

theorem Expr.sparesWildcards_columnsForDistinct [BEq σ] {keys : List (SortKey σ)}
    {columns : List (Expr σ)} (h : SparesWildcards (keys.map (·.expr))) :
    SparesWildcards (columnsForDistinct columns keys) ↔ SparesWildcards columns := by
  constructor
  · exact fun hall e he => hall e ((mem_columnsForDistinct keys columns).1 he)
  · intro hall e he
    rcases (mem_columnsForDistinct keys columns).2 he with he | he
    · exact hall e he
    · exact h e he

/-- The groups of a plain select are its own, or its value. -/
theorem Shape.sparesWildcards_groups [BEq σ] (hoffset : s.offset = none)
    (hgroups : SparesWildcards c.groups) :
    SparesWildcards ((Shape.of s c).plainArrangement s c).groups ↔
      (s.groupsByValue c = true → SparesWildcards c.values) := by
  have hlimit : (Shape.of s c).groupsToLimit = s.groupsByValue c := by
    simp only [groupsToLimit, Shape.of, SelectBody.groupsByValue, hoffset]
    cases c.singleDistinct <;> cases c.wholeTable <;> cases s.limit <;> simp
  unfold plainArrangement
  rw [hlimit]
  split
  · rename_i hvalue
    simp [hvalue, Core.values, Function.comp_def]
  · rename_i hvalue
    split <;> simp [hvalue, hgroups]

/-- The groups of a page are its own, or its value, and for distinct values the order as well. -/
theorem Shape.sparesWildcards_numberedGroups [BEq σ] (hoffset : s.offset.isSome = true)
    (hgroups : SparesWildcards c.groups) (horders : SparesWildcards (s.orders.map (·.expr))) :
    SparesWildcards ((Shape.of s c).numberedGroups s c) ↔
      (s.groupsByValue c = true → SparesWildcards c.values) := by
  unfold numberedGroups
  by_cases hsingle : c.singleDistinct = true
  · rw [if_pos (show (Shape.of s c).singleDistinct = true from hsingle),
      Expr.sparesWildcards_columnsForDistinct horders, values_numberedProjections hsingle]
    cases hempty : c.groups.isEmpty with
    | true => simp [SelectBody.groupsByValue, hsingle, hoffset, hempty]
    | false => simp [SelectBody.groupsByValue, hempty, hgroups]
  · rw [if_neg (show ¬(Shape.of s c).singleDistinct = true from hsingle)]
    simp [SelectBody.groupsByValue, hsingle, hgroups]

/-! ## Duplicates -/

/-- All columns are projected only of the base table, whose primary key is known. -/
def Core.TellsWildcards (c : Core σ) : Prop :=
  ∀ p ∈ c.projections, ∀ table, p.unmarked.unaliased = .wildcard table →
    ∃ base key, c.baseTable? = some base ∧ base.keyColumn? = some key ∧
      table = some base.qualifier

/-- **Duplicates are told by a wildcard**, unless its table is the base table and has a primary
key. -/
theorem Core.isWildcard_identity_iff (c : Core σ) (p : Expr σ) :
    (c.identity p.unmarked).isWildcard = false ↔
      ∀ table, p.unmarked.unaliased = .wildcard table →
        ∃ base key, c.baseTable? = some base ∧ base.keyColumn? = some key ∧
          table = some base.qualifier := by
  have hself : p.unmarked.unaliased.isWildcard = false ↔
      ∀ table, p.unmarked.unaliased ≠ .wildcard table := by
    rw [← Bool.not_eq_true, Expr.isWildcard_iff, not_exists]
  unfold identity
  split
  · rename_i table base htable hbase
    have hwildcard : p.unmarked.unaliased = .wildcard (some table) := by
      rw [Expr.wildcardTable?_unaliased, Expr.wildcardTable?_unmarked] at htable
      exact (Expr.bare_of_wildcardTable? htable).2
    rw [hwildcard, hbase]
    split
    · rename_i hqualifier
      cases hkey : base.keyColumn? with
      | none => simp [Expr.isWildcard, hkey]
      | some key => simp [Expr.isWildcard, hkey, hqualifier]
    · rename_i hqualifier
      simp [Expr.isWildcard, hqualifier]
  · rename_i hother
    rw [hself]
    constructor
    · exact fun hne table htable => absurd htable (hne table)
    · intro htold table htable
      obtain ⟨base, key, hbase, -, rfl⟩ := htold table htable
      refine hother base.qualifier base ?_ hbase
      rw [htable]
      rfl

/-! ## Cores -/

theorem Core.sparesWildcards_identity_iff (c : Core σ) :
    SparesWildcards ((c.projections.map Expr.unmarked).map c.identity) ↔ c.TellsWildcards := by
  simp only [SparesWildcards, List.map_map, List.forall_mem_map, Function.comp_apply,
    isWildcard_identity_iff, TellsWildcards]

/-- A count is not marked, so it is not grouped by its value. -/
theorem SelectBody.groupsByValue_of_count (h : c.countOnly = true) : s.groupsByValue c = false := by
  suffices hsingle : c.singleDistinct = false by simp [groupsByValue, hsingle]
  unfold Core.countOnly at h
  split at h
  · rename_i p hps
    have hcall : p.isCall = true := by
      unfold Expr.isCount at h
      unfold Expr.isCall
      split at h
      · rename_i hcount
        rw [hcount]
      · cases h
    rw [Core.singleDistinct, hps]
    refine Bool.eq_false_iff.2 fun hmarked => ?_
    rw [Expr.isCall_of_isMarked hmarked] at hcall
    cases hcall
  · cases h

namespace Scope

theorem keysSpareWildcards_count (h : (sc.count s c).result = .ok q)
    (hgroups : SparesWildcards c.groups) (horders : SparesWildcards (s.orders.map (·.expr))) :
    q.KeysSpareWildcards := by
  obtain ⟨orders, groups, hkeys, hexprs, hlevels⟩ := count_levels h
  have hgroups' := (sparesWildcards_exprs hexprs).2 hgroups
  have horders' := (sparesWildcards_exprs (exprs_of_keys hkeys)).2
    (sparesWildcards_pageKeys c.baseTable? horders)
  simp [hlevels.spares_iff, Window.exprs, hgroups', horders']

theorem keysSpareWildcards_distinctOrder_iff (h : (sc.distinctOrder s c).result = .ok q)
    (hgroups : SparesWildcards c.groups) (horders : SparesWildcards (s.orders.map (·.expr))) :
    q.KeysSpareWildcards ↔ c.TellsWildcards := by
  obtain ⟨orders, partition, groups, between, hkeys, hpartition, hexprs, hbetween, hlevels⟩ :=
    distinctOrder_levels h
  have hgroups' := (sparesWildcards_exprs hexprs).2 hgroups
  have horders' := (sparesWildcards_exprs (exprs_of_keys hkeys)).2 horders
  have hbetween' : ∀ l ∈ between, SparesWildcards (l.2 ++ l.1.flatMap Window.exprs) := by
    intro l hl
    rw [hbetween l hl]
    simp [SparesWildcards, Window.exprs, Expr.named, Expr.isWildcard]
  rw [hlevels.spares_iff, ← c.sparesWildcards_identity_iff,
    ← sparesWildcards_exprs hpartition, List.forall_mem_cons, List.forall_mem_append,
    List.forall_mem_singleton, and_iff_right hbetween']
  simp [Window.exprs, hgroups', horders']

variable [BEq σ]

theorem keysSpareWildcards_paginated_iff (h : (sc.paginated (Shape.of s c) s c).result = .ok q)
    (hoffset : s.offset.isSome = true) (hgroups : SparesWildcards c.groups)
    (horders : SparesWildcards (s.orders.map (·.expr))) :
    q.KeysSpareWildcards ↔ (s.groupsByValue c = true → SparesWildcards c.values) := by
  obtain ⟨ranking, keys, orders, groups, hkeys, hcompiled, hexprs, hlevels⟩ := paginated_levels h
  have horders' : SparesWildcards (orders.map (·.expr)) := by
    refine (sparesWildcards_exprs (exprs_of_keys hcompiled)).2 ?_
    rcases hkeys with hkeys | hkeys
    · exact Shape.sparesWildcards_denseKeys hkeys horders
    · rw [s.rowKeys_result] at hkeys
      rw [← Except.ok.inj hkeys]
      exact sparesWildcards_pageKeys _ horders
  rw [hlevels.spares_iff, ← Shape.sparesWildcards_numberedGroups hoffset hgroups horders,
    ← sparesWildcards_exprs hexprs]
  simp [Window.exprs, horders']

theorem keysSpareWildcards_plain_iff (h : (sc.plain (Shape.of s c) s c).result = .ok q)
    (hoffset : s.offset = none) (hgroups : SparesWildcards c.groups) :
    q.KeysSpareWildcards ↔ (s.groupsByValue c = true → SparesWildcards c.values) := by
  obtain ⟨groups, hexprs, hlevels⟩ := plain_levels h
  rw [hlevels.spares_iff, ← Shape.sparesWildcards_groups hoffset hgroups,
    ← sparesWildcards_exprs hexprs]
  simp

/-- **A core** is compiled without wildcards among the keys unless it is grouped by a value that is
one, or duplicates are told by one. -/
theorem keysSpareWildcards_core_iff (h : (sc.core s c).result = .ok q)
    (hgroups : SparesWildcards c.groups) (horders : SparesWildcards (s.orders.map (·.expr))) :
    q.KeysSpareWildcards ↔
      if (Shape.of s c).strategy = .distinctOrder then c.TellsWildcards
      else s.groupsByValue c = true → SparesWildcards c.values := by
  have h := core_eq_ok h
  have hspec := (Shape.of s c).strategy_spec
  cases hstrategy : (Shape.of s c).strategy with
  | count =>
    rw [hstrategy] at h hspec
    simp [keysSpareWildcards_count h hgroups horders, SelectBody.groupsByValue_of_count hspec.1]
  | distinctOrder =>
    rw [hstrategy] at h
    rw [if_pos rfl]
    exact keysSpareWildcards_distinctOrder_iff h hgroups horders
  | paginated =>
    rw [hstrategy, ← Shape.of_correlated] at h
    rw [hstrategy] at hspec
    rw [if_neg nofun]
    exact keysSpareWildcards_paginated_iff
      (c := { c with source := c.source.map fun s => s.correlated.1 }) h hspec.1 hgroups horders
  | plain =>
    rw [hstrategy, ← Shape.of_correlated] at h
    rw [hstrategy] at hspec
    rw [if_neg nofun]
    have hoffset : s.offset = none :=
      Option.not_isSome_iff_eq_none.1 (Bool.eq_false_iff.1 hspec.1)
    exact keysSpareWildcards_plain_iff
      (c := { c with source := c.source.map fun s => s.correlated.1 }) h hoffset hgroups

end Scope

end

/-! ## Selects -/

section

variable {σ τ : Type} (f : σ → τ) (s : SelectBody σ) (c : Core σ)

theorem SelectBody.groupsByValue_map :
    (s.map f).groupsByValue (c.map f) = s.groupsByValue c := by
  have hwhole : (c.map f).wholeTable = c.wholeTable := by
    unfold Core.wholeTable
    rw [Core.map]
    rcases c.projections with _ | ⟨p, _ | ⟨p', ps⟩⟩
    · rfl
    · exact congrArg Option.isSome (p.wildcardTable?_map f)
    · rfl
  rw [groupsByValue, groupsByValue, Core.singleDistinct_map, hwhole]
  simp [SelectBody.map, Core.map]

theorem Core.values_map : (c.map f).values = c.values.map (·.map f) := by
  simp [values, Core.map, Function.comp_def, Expr.bare_map, Expr.unaliased_map]

theorem Core.tellsWildcards_map : (c.map f).TellsWildcards ↔ c.TellsWildcards := by
  have hbase : (c.map f).baseTable? = c.baseTable? := by
    simp [baseTable?, Core.map, Function.comp_def, Source.baseTable_map]
  have hwildcard : ∀ (p : Expr σ) (table : Option String),
      (p.map f).unmarked.unaliased = .wildcard table ↔ p.unmarked.unaliased = .wildcard table := by
    intro p table
    rw [Expr.unmarked_map, Expr.unaliased_map]
    cases p.unmarked.unaliased <;> simp [Expr.map]
  simp only [TellsWildcards, hbase]
  simp only [Core.map, List.forall_mem_map, hwildcard]

end

namespace Select

variable {options : Options} {s : Select} {c : Core Select} {q : Query}

/-- **Keys are no wildcards**, for a select whose own groups and orders are none, exactly when it is
not grouped by a value that is one and duplicates are not told by one: a single distinct projection
is grouped on a page and for a limit, and duplicates are told in a foreign order. -/
theorem keysSpareWildcards_iff (hc : s.body.cores.head? = some c)
    (hq : (s.compile options).result = .ok q) (hgroups : SparesWildcards c.groups)
    (horders : SparesWildcards (s.body.orders.map (·.expr))) :
    q.KeysSpareWildcards ↔
      if s.strategy? options = some .distinctOrder then c.TellsWildcards
      else s.body.groupsByValue c = true → SparesWildcards c.values := by
  obtain ⟨orders, hdistinct, hstrategy, hcore⟩ := compile_eq_ok hc hq
  obtain ⟨strategy, hsome⟩ : ∃ strategy, s.strategy? options = some strategy := by
    obtain ⟨_, _, -, h, -⟩ := exists_core hq
    exact ⟨_, h⟩
  have hgroups' : SparesWildcards (c.map (compiled options)).groups :=
    (sparesWildcards_map (compiled options) c.groups).2 hgroups
  have horders' : SparesWildcards (orders.map (·.expr)) := by
    intro e he
    obtain ⟨k, hk, rfl⟩ := List.mem_map.1 he
    obtain ⟨k', hk', rfl⟩ := List.mem_map.1 ((s.scope options).distinctKeys_subset hdistinct hk)
    rw [SortKey.map, Expr.isWildcard_map]
    exact horders _ (List.mem_map_of_mem hk')
  have hvalue : ({ s.level options with orders := orders } : SelectBody Compiled).groupsByValue
      (c.map (compiled options)) = s.body.groupsByValue c :=
    s.body.groupsByValue_map (compiled options) c
  rw [Scope.keysSpareWildcards_core_iff hcore hgroups' horders', hstrategy hsome, hsome, hvalue,
    Core.values_map, sparesWildcards_map, Core.tellsWildcards_map]
  simp only [Option.some.injEq]

/-- People with all their columns, in the order of their pets. -/
def peopleByPet : Select :=
  .of
    { cores :=
        [{ projections := [.alias (.distinct (.allOf "people")) "p"]
           source := some (.join .inner (.table { name := "people", primaryKey := some "id" })
             (.table { name := "pets" }) none) }]
      orders := [(Expr.qualified "pets" "name").asc]
      limit := some (.int 5) }

theorem keysSpareWildcards_peopleByPet :
    ∃ c q, peopleByPet.body.cores.head? = some c ∧ (peopleByPet.compile {}).result = .ok q ∧
      SparesWildcards c.groups ∧ SparesWildcards (peopleByPet.body.orders.map (·.expr)) ∧
      peopleByPet.strategy? {} = some .distinctOrder ∧ c.TellsWildcards ∧
      q.KeysSpareWildcards := by
  have hq : (peopleByPet.compile {}).result = .ok _ := rfl
  have hstrategy : peopleByPet.strategy? {} = some .distinctOrder := rfl
  have horders : SparesWildcards (peopleByPet.body.orders.map (·.expr)) := by
    simp [SparesWildcards, peopleByPet, body, Expr.asc, Expr.qualified, Expr.isWildcard]
  obtain ⟨c, hc⟩ : ∃ c, peopleByPet.body.cores.head? = some c := ⟨_, rfl⟩
  have hgroups : SparesWildcards c.groups := by
    rw [← Option.some.inj hc]
    exact sparesWildcards_nil
  have htells : c.TellsWildcards := by
    rw [← Option.some.inj hc]
    intro p hp table htable
    rw [List.mem_singleton.1 hp] at htable
    cases htable
    exact ⟨_, ⟨some "people", "id"⟩, rfl, rfl, rfl⟩
  have hiff := keysSpareWildcards_iff hc hq hgroups horders
  rw [if_pos hstrategy] at hiff
  exact ⟨c, _, hc, hq, hgroups, horders, hstrategy, htells, hiff.2 htells⟩

/-- A few distinct rows. -/
def fewRows : Select :=
  .of
    { cores := [{ projections := [.distinct .star], source := some (.table { name := "t" }) }]
      limit := some (.int 5) }

/-- A page of distinct rows of a table. -/
def rowsPage : Select :=
  .of
    { cores :=
        [{ projections := [.distinct (.allOf "t")]
           source := some (.table { name := "t", primaryKey := some "id" }) }]
      offset := some (.int 1) }

/-- Distinct rows in an order. -/
def rowsInOrder : Select :=
  .of
    { cores :=
        [{ projections := [.star]
           source := some (.table { name := "t", primaryKey := some "id" })
           distinct := true }]
      orders := [(Expr.named "b").asc] }

/-- Distinct rows are grouped by all their columns for a limit and on a page, and told by all of
them in a foreign order. -/
theorem keys_not_spareWildcards :
    (Statement.sql {} (.select fewRows) = .ok "SELECT TOP (5) * FROM [t] GROUP BY *" ∧
      ∃ q, (fewRows.compile {}).result = .ok q ∧ ¬ q.KeysSpareWildcards) ∧
    (Statement.sql {} (.select rowsPage) =
        .ok ("SELECT [__rnt].* FROM (SELECT DENSE_RANK() OVER (ORDER BY [t].[id] ASC) AS " ++
          "[__rn], [t].* FROM [t] GROUP BY [t].*) AS [__rnt] WHERE [__rnt].[__rn] > (1) " ++
          "ORDER BY [__rnt].[__rn] ASC") ∧
      ∃ q, (rowsPage.compile {}).result = .ok q ∧ ¬ q.KeysSpareWildcards) ∧
    (Statement.sql {} (.select rowsInOrder) =
        .ok ("SELECT DISTINCT *, [__order] FROM (SELECT *, DENSE_RANK() OVER (ORDER BY [b] ASC) " ++
          "AS [__order], ROW_NUMBER() OVER (PARTITION BY * ORDER BY [b] ASC) AS " ++
          "[__joined_row_num] FROM [t]) AS [__sq] WHERE [__joined_row_num] = 1 " ++
          "ORDER BY [__order]") ∧
      ∃ q, (rowsInOrder.compile {}).result = .ok q ∧ ¬ q.KeysSpareWildcards) := by
  refine ⟨⟨by decide +kernel, _, rfl, fun h => ?_⟩, ⟨by decide +kernel, _, rfl, fun h => ?_⟩,
    by decide +kernel, _, rfl, fun h => ?_⟩
  · cases h _ .refl .star List.mem_cons_self
  · cases h _ (.single ⟨_, rfl⟩) (.allOf "t") List.mem_cons_self
  · cases h _ (.single ⟨_, rfl⟩) .star (List.mem_cons_of_mem _ List.mem_cons_self)

end Select

end Transact
