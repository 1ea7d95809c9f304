import Transact.Proofs.DistinctMark
import Transact.Proofs.Plan.Builds

/-!
# Distinct rows are sorted by what they list

The server sorts distinct rows only by what is in their select list. `Scope.plainList` is the select
list that a plain select is written with, and `Listed` says when a sort expression is in it.

* `Listed.of_isCovered`: a covered expression is listed, unless it has an alias or a mark itself.
* `Scope.listed_plain_iff`: which keys of a plain select of distinct rows are listed. A limited
  single distinct projection is grouped and then sorted by aggregates, none of which is listed.
-/

set_option autoImplicit false

namespace Transact

section

variable {σ : Type}

/-! ## Select lists -/

namespace Expr

/-- The expression has an alias or a mark around it. -/
def isDressed : Expr σ → Bool
  | .alias _ _ => true
  | .distinct _ => true
  | _ => false

theorem normalized_of_not_dressed {e : Expr σ} (h : e.isDressed = false) :
    e.normalized = e.lowercase := by
  cases e <;> first | rfl | cases h

theorem isDressed_unaliased : ∀ {e : Expr σ}, e.isMarked = false → e.unaliased.isDressed = false
  | .alias e _, h => isDressed_unaliased (e := e) h
  | .distinct _, h => by cases h
  | .column _, _ | .wildcard _, _ | .literal _, _ | .typed _ _, _ | .aggregate _ _ _, _
  | .call _ _, _ | .binary _ _ _, _ | .not _, _ | .isNull _ _, _ | .inList _ _ _, _
  | .inSubquery _ _ _, _ | .grouping _, _ | .caseSensitive _, _ | .raw _, _ => rfl

theorem unmarked_of_not_marked : ∀ {p : Expr σ}, p.isMarked = false → p.unmarked = p
  | .alias p _, h => by rw [unmarked, unmarked_of_not_marked (p := p) h]
  | .distinct _, h => by cases h
  | .column _, _ | .wildcard _, _ | .literal _, _ | .typed _ _, _ | .aggregate _ _ _, _
  | .call _ _, _ | .binary _ _ _, _ | .not _, _ | .isNull _ _, _ | .inList _ _ _, _
  | .inSubquery _ _ _, _ | .grouping _, _ | .caseSensitive _, _ | .raw _, _ => rfl

/-- All columns of a table are projected as they stand, marks apart. -/
theorem bare_of_wildcardTable? {t : String} : ∀ {p : Expr σ}, p.wildcardTable? = some t →
    p.bare = p.unmarked ∧ p.unmarked.unaliased = .wildcard (some t)
  | .alias e _, h => by
    obtain ⟨hbare, htable⟩ := bare_of_wildcardTable? (p := e) h
    rw [bare, unmarked, unaliased, hbare]
    exact ⟨rfl, htable⟩
  | .distinct e, h => by
    obtain ⟨hbare, htable⟩ := bare_of_wildcardTable? (p := e) h
    rw [bare, unmarked]
    exact ⟨hbare, htable⟩
  | .wildcard _, h => by
    obtain rfl := h
    exact ⟨rfl, rfl⟩
  | .column _, h | .literal _, h | .typed _ _, h | .aggregate _ _ _, h | .call _ _, h
  | .binary _ _ _, h | .not _, h | .isNull _ _, h | .inList _ _ _, h | .inSubquery _ _ _, h
  | .grouping _, h | .caseSensitive _, h | .raw _, h => by cases h

-- an aggregate may be the argument of another one, so the argument is reduced as well
mutual

theorem isMarked_bare : ∀ e : Expr σ, e.bare.isMarked = false
  | .aggregate _ args _ => isMarked_bareFirst args
  | .distinct e => isMarked_bare e
  | .alias e _ => isMarked_bare e
  | .column _ | .wildcard _ | .literal _ | .typed _ _ | .call _ _ | .binary _ _ _ | .not _
  | .isNull _ _ | .inList _ _ _ | .inSubquery _ _ _ | .grouping _ | .caseSensitive _ | .raw _ => rfl

theorem isMarked_bareFirst : ∀ es : List (Expr σ), (bareFirst es).isMarked = false
  | [] => rfl
  | e :: _ => isMarked_bare e

end

mutual

/-- What a projection is built on is no aggregate. -/
theorem unaliased_bare_ne_aggregate (fn : AggregateFn) (args : List (Expr σ)) (d : Bool) :
    ∀ e : Expr σ, e.bare.unaliased ≠ .aggregate fn args d
  | .aggregate _ es _ => unaliased_bareFirst_ne_aggregate fn args d es
  | .distinct e => unaliased_bare_ne_aggregate fn args d e
  | .alias e _ => unaliased_bare_ne_aggregate fn args d e
  | .column _ | .wildcard _ | .literal _ | .typed _ _ | .call _ _ | .binary _ _ _ | .not _
  | .isNull _ _ | .inList _ _ _ | .inSubquery _ _ _ | .grouping _ | .caseSensitive _ | .raw _ =>
    nofun

theorem unaliased_bareFirst_ne_aggregate (fn : AggregateFn) (args : List (Expr σ)) (d : Bool) :
    ∀ es : List (Expr σ), (bareFirst es).unaliased ≠ .aggregate fn args d
  | [] => nofun
  | e :: _ => unaliased_bare_ne_aggregate fn args d e

end

end Expr

/-- A sort expression is in a select list, whatever the case of the letters: it is an entry without
its alias, a column that names the alias of an entry, or a column of a table that is listed
whole. -/
def Listed [BEq σ] (entries : List (Expr σ)) (key : Expr σ) : Prop :=
  (∃ p ∈ entries, (key.lowercase == p.unaliased.lowercase) = true) ∨
  (∃ name, key = .named name ∧
    ∃ p ∈ entries, ∃ a, p.alias? = some a ∧ Text.lower a = Text.lower name) ∨
  ∃ table name, key = .qualified table name ∧
    ∃ p ∈ entries, ∃ t, p.unaliased = .wildcard (some t) ∧ Text.lower t = Text.lower table

/-- The select list of a plain select. A mark on its first entry has become the quantifier, and a
constant `1` has an alias. -/
def Scope.plainList (sc : Scope σ) (sh : Shape) (s : SelectBody σ) (c : Core σ) : List (Expr σ) :=
  let ps := (sh.plainArrangement s c).projections
  (if ps.head?.any Expr.isMarked then ps.modifyHead Expr.unmarked else ps).map fun p =>
    if p.isLiteralOne then .alias p sc.names.one else p

/-- **A plain query** has this select list and the arranged order. -/
theorem Scope.plain_eq_ok {sc : Scope σ} {sh : Shape} {s : SelectBody σ} {c : Core σ} {q : Query}
    (h : (sc.plain sh s c).result = .ok q) :
    (∃ es, (sc.exprs (sc.plainList sh s c)).result = .ok es ∧ q.body.columns = [es.map .expr]) ∧
      (sc.keys (sh.plainArrangement s c).orders).result = .ok q.body.orders ∧
      (sc.expr? s.limit).result = .ok q.body.top ∧
      q.body.distinct =
        (c.distinct || (sh.plainArrangement s c).projections.head?.any Expr.isMarked) := by
  rw [Scope.plain_result] at h
  simp only [Trace.bind_eq_ok] at h
  obtain ⟨top, htop, columns, hcolumns, frame, -, orders, horders, h⟩ := h
  obtain rfl := Except.ok.inj h
  obtain ⟨es, hes, rfl⟩ := Scope.projections_eq_ok.1 hcolumns
  exact ⟨⟨es, hes, rfl⟩, horders, htop, rfl⟩

/-! ## Entries of the list -/

/-- Every projection has an entry that is the projection without its mark. -/
def ListsAll (ps entries : List (Expr σ)) : Prop :=
  ∀ p ∈ ps, ∃ e ∈ entries, e.unaliased = p.unmarked.unaliased ∧
    ∀ a, p.alias? = some a → e.alias? = some a

variable [BEq σ]

omit [BEq σ] in
theorem Expr.lowercase_eq_column {e : Expr σ} {c : ColumnRef} (h : e.lowercase = .column c) :
    ∃ d : ColumnRef, e = .column d ∧ c = ⟨d.table.map Text.lower, Text.lower d.name⟩ := by
  cases e <;> simp only [lowercase, rename, reduceCtorEq, Expr.column.injEq] at h
  case column d => exact ⟨d, rfl, h.symm⟩

/-- **A covered expression is listed**, unless it has an alias or a mark itself. -/
theorem Listed.of_isCovered {ps entries : List (Expr σ)} (hlists : ListsAll ps entries)
    {key : Expr σ} (hkey : key.isDressed = false) (h : isCovered ps key = true) :
    Listed entries key := by
  have hprojected : (ps.map Expr.normalized).contains key.lowercase = true →
      Listed entries key := by
    intro h
    obtain ⟨e, he, hsame⟩ := List.contains_iff_exists_mem_beq.1 h
    obtain ⟨p, hp, rfl⟩ := List.mem_map.1 he
    obtain ⟨e, he, hentry, -⟩ := hlists p hp
    refine .inl ⟨e, he, ?_⟩
    rw [hentry]
    exact hsame
  simp only [isCovered, Expr.normalized_of_not_dressed hkey] at h
  split at h
  · rename_i table name hcolumn
    obtain ⟨⟨table', name'⟩, rfl, hd⟩ := Expr.lowercase_eq_column hcolumn
    obtain ⟨htable, -⟩ := ColumnRef.mk.inj hd
    obtain ⟨table', rfl, rfl⟩ := Option.map_eq_some_iff.1 htable.symm
    rcases Bool.or_eq_true_iff.1 h with hwhole | h
    · obtain ⟨t, ht, hlower⟩ := List.mem_map.1 (List.contains_iff_mem.1 hwhole)
      obtain ⟨p, hp, hp'⟩ := List.mem_filterMap.1 ht
      obtain ⟨e, he, hentry, -⟩ := hlists p hp
      rw [(Expr.bare_of_wildcardTable? hp').2] at hentry
      exact .inr (.inr ⟨table', name', rfl, e, he, t, hentry, hlower⟩)
    · exact hprojected h
  · rename_i name hcolumn
    obtain ⟨⟨table', name'⟩, rfl, hd⟩ := Expr.lowercase_eq_column hcolumn
    obtain ⟨htable, rfl⟩ := ColumnRef.mk.inj hd
    obtain rfl := Option.map_eq_none_iff.1 htable.symm
    rcases Bool.or_eq_true_iff.1 h with halias | h
    · obtain ⟨a, ha, hlower⟩ := List.mem_map.1 (List.contains_iff_mem.1 halias)
      obtain ⟨p, hp, hp'⟩ := List.mem_filterMap.1 ha
      obtain ⟨e, he, -, hentry⟩ := hlists p hp
      exact .inr (.inl ⟨name', rfl, e, he, a, hentry a hp', hlower⟩)
    · exact hprojected h
  · exact hprojected h

/-- Only what has an alias or a mark is the same as something that has. -/
theorem Expr.isDressed_of_same {a b : Expr σ} (h : (a == b) = true) (hb : b.isDressed = false) :
    a.isDressed = false := by
  cases a <;> first
    | rfl
    | cases b <;> first
      | exact absurd h Bool.false_ne_true
      | cases hb

omit [BEq σ] in
theorem Expr.isDressed_lowercase (e : Expr σ) : e.lowercase.isDressed = e.isDressed := by
  cases e <;> rfl

/-- Entries without marks list nothing that has an alias or a mark. -/
theorem Listed.not_dressed {entries : List (Expr σ)} (hentries : ∀ e ∈ entries, e.isMarked = false)
    {key : Expr σ} (h : Listed entries key) : key.isDressed = false := by
  rcases h with ⟨e, he, hsame⟩ | ⟨name, rfl, -⟩ | ⟨table, name, rfl, -⟩
  · have hbare := Expr.isDressed_unaliased (hentries e he)
    rw [← Expr.isDressed_lowercase] at hbare ⊢
    exact Expr.isDressed_of_same hsame hbare
  · rfl
  · rfl

omit [BEq σ] in
theorem ListsAll.ones {ps entries : List (Expr σ)} (name : String) (h : ListsAll ps entries) :
    ListsAll ps (entries.map fun p => if p.isLiteralOne then .alias p name else p) := by
  intro p hp
  obtain ⟨e, he, hentry, halias⟩ := h p hp
  refine ⟨_, List.mem_map_of_mem he, ?_, ?_⟩
  · split
    · exact hentry
    · exact hentry
  · intro a ha
    have := halias a ha
    split
    · rename_i hone
      obtain ⟨e, rfl⟩ := Expr.alias?_eq_some.1 this
      cases hone
    · exact this

omit [BEq σ] in
/-- A list without its first mark, when there is no other, lists everything and has no mark. -/
theorem ListsAll.unmarkedHead {ps : List (Expr σ)} (h : ∀ p ∈ ps.tail, p.isMarked = false) :
    ListsAll ps (if ps.head?.any Expr.isMarked then ps.modifyHead Expr.unmarked else ps) ∧
      ∀ e ∈ if ps.head?.any Expr.isMarked then ps.modifyHead Expr.unmarked else ps,
        e.isMarked = false := by
  cases ps with
  | nil => simp [ListsAll]
  | cons p ps =>
    have hself : ∀ p : Expr σ, p.isMarked = false → p.unaliased = p.unmarked.unaliased := by
      intro p hp
      rw [Expr.unmarked_of_not_marked hp]
    cases hp : p.isMarked with
    | false =>
      have hall : ∀ e ∈ p :: ps, e.isMarked = false := List.forall_mem_cons.2 ⟨hp, h⟩
      simp only [List.head?_cons, Option.any_some, hp, Bool.false_eq_true, if_false]
      exact ⟨fun e he => ⟨e, he, hself e (hall e he), fun _ ha => ha⟩, hall⟩
    | true =>
      simp only [List.head?_cons, Option.any_some, hp, if_true, List.modifyHead_cons]
      refine ⟨fun e he => ?_, List.forall_mem_cons.2 ⟨p.isMarked_unmarked, h⟩⟩
      rcases List.mem_cons.1 he with rfl | he
      · exact ⟨e.unmarked, List.mem_cons_self, rfl, fun _ => Expr.alias?_unmarked⟩
      · exact ⟨e, List.mem_cons_of_mem _ he, hself e (h e he), fun _ ha => ha⟩

omit [BEq σ] in
theorem Expr.isMarked_ones {entries : List (Expr σ)} (name : String)
    (h : ∀ e ∈ entries, e.isMarked = false) :
    ∀ e ∈ entries.map fun p => if p.isLiteralOne then .alias p name else p,
      e.isMarked = false := by
  intro e he
  obtain ⟨p, hp, rfl⟩ := List.mem_map.1 he
  split
  · exact h p hp
  · exact h p hp

omit [BEq σ] in
theorem Core.singleDistinct_iff {c : Core σ} : c.singleDistinct = true ↔
    ∃ p, c.projections = [p] ∧ p.isMarked = true := by
  unfold Core.singleDistinct
  split
  · rename_i p hp
    simp [hp]
  · rename_i hp
    simp only [Bool.false_eq_true, false_iff]
    rintro ⟨p, hps, -⟩
    exact hp p hps

/-! ## Plain selects -/

namespace Scope

variable (sc : Scope σ) (s : SelectBody σ) {c : Core σ}

/-- A single distinct projection that is limited is sorted by aggregates, and lists none. -/
theorem not_listed_of_grouped (h : (Shape.of s c).groupsToLimit = true) :
    ∀ k ∈ ((Shape.of s c).plainArrangement s c).orders,
      ¬ Listed (sc.plainList (Shape.of s c) s c) k.expr := by
  have harranged : (Shape.of s c).plainArrangement s c =
      ⟨c.projections.map Expr.bare, (c.projections.map Expr.bare).map Expr.unaliased,
        s.orders.map SortKey.extreme⟩ := by
    rw [Shape.plainArrangement, if_pos h]
  obtain ⟨p, hps, -⟩ : ∃ p, c.projections = [p] ∧ p.isMarked = true := by
    simp only [Shape.groupsToLimit, Bool.and_eq_true] at h
    exact Core.singleDistinct_iff.1 h.1.1.1.1
  have hlist : ∀ e ∈ sc.plainList (Shape.of s c) s c, e.unaliased = p.bare.unaliased := by
    intro e he
    simp only [plainList, harranged, hps, List.map_cons, List.map_nil, List.head?_cons,
      Option.any_some, p.isMarked_bare, Bool.false_eq_true, if_false, List.mem_singleton] at he
    rw [he]
    split <;> rfl
  rw [harranged]
  intro k hk
  obtain ⟨k, -, rfl⟩ := List.mem_map.1 hk
  rintro (⟨e, he, hsame⟩ | ⟨name, hcolumn, -⟩ | ⟨table, name, hcolumn, -⟩)
  · rw [hlist e he] at hsame
    cases hbare : p.bare.unaliased with
    | aggregate fn args d => exact Expr.unaliased_bare_ne_aggregate fn args d p hbare
    | _ =>
      rw [hbare] at hsame
      cases hsame
  · cases hcolumn
  · cases hcolumn

/-- Otherwise the select list is that of the core without its first mark, and the order is that of
the select. -/
theorem plainList_of_not_grouped (h : (Shape.of s c).groupsToLimit = false) :
    ((Shape.of s c).plainArrangement s c).orders = s.orders ∧
    sc.plainList (Shape.of s c) s c =
      (if c.projections.head?.any Expr.isMarked then c.projections.modifyHead Expr.unmarked
        else c.projections).map fun p => if p.isLiteralOne then .alias p sc.names.one else p := by
  unfold plainList
  rw [Shape.plainArrangement, if_neg (by simp [h])]
  split
  · rename_i hwhole
    simp only [Shape.limitsWholeTable, Shape.of, Bool.and_eq_true] at hwhole
    obtain ⟨p, hps, hmarked⟩ := Core.singleDistinct_iff.1 hwhole.1.1.1.1
    have htable : p.wildcardTable?.isSome = true := by
      have := hwhole.1.1.1.2
      rwa [Core.wholeTable, hps] at this
    obtain ⟨t, ht⟩ := Option.isSome_iff_exists.1 htable
    simp [hps, hmarked, (Expr.bare_of_wildcardTable? ht).1, p.isMarked_unmarked]
  · exact ⟨rfl, rfl⟩

/-- Distinct rows that are not ranked in a foreign order are sorted by covered expressions. -/
theorem isCovered_of_distinct (hstrategy : (Shape.of s c).strategy = .plain ∨
    (Shape.of s c).strategy = .paginated) (hdistinct : (Shape.of s c).isDistinct = true) :
    ∀ k ∈ s.orders, isCovered c.projections k.expr = true := by
  have hforeign : (Shape.of s c).foreignOrder = false := by
    unfold Shape.strategy at hstrategy
    rw [hdistinct] at hstrategy
    cases hf : (Shape.of s c).foreignOrder with
    | false => rfl
    | true => simp [hf, ite_eq_iff] at hstrategy
  intro k hk
  have h := List.any_eq_false.1 hforeign k hk
  simpa using h

/-- A plain select of distinct rows is sorted by covered expressions. -/
theorem isCovered_of_plain (hplain : (Shape.of s c).strategy = .plain)
    (hdistinct : (c.distinct || ((Shape.of s c).plainArrangement s c).projections.head?.any
      Expr.isMarked) = true) :
    ∀ k ∈ s.orders, isCovered c.projections k.expr = true := by
  have hisDistinct : (Shape.of s c).isDistinct = true := by
    have hbare : (c.projections.map Expr.bare).head?.any Expr.isMarked = false := by
      cases c.projections <;> simp [Expr.isMarked_bare]
    show (c.distinct || c.projections.head?.any Expr.isMarked) = true
    unfold Shape.plainArrangement at hdistinct
    split at hdistinct
    · simp_all
    · split at hdistinct
      · simp_all
      · exact hdistinct
  exact isCovered_of_distinct s (.inl hplain) hisDistinct

/-- **Which keys are listed** in a plain select of distinct rows. -/
theorem listed_plain_iff (hmarks : ∀ p ∈ c.projections.tail, p.isMarked = false)
    (hplain : (Shape.of s c).strategy = .plain)
    (hdistinct : (c.distinct || ((Shape.of s c).plainArrangement s c).projections.head?.any
      Expr.isMarked) = true) :
    ∀ k ∈ ((Shape.of s c).plainArrangement s c).orders,
      Listed (sc.plainList (Shape.of s c) s c) k.expr ↔
        (Shape.of s c).groupsToLimit = false ∧ k.expr.isDressed = false := by
  intro k hk
  cases hgroups : (Shape.of s c).groupsToLimit with
  | true => simp [sc.not_listed_of_grouped s hgroups k hk]
  | false =>
    obtain ⟨horders, hlist⟩ := sc.plainList_of_not_grouped s hgroups
    obtain ⟨hall, hunmarked⟩ := ListsAll.unmarkedHead hmarks
    rw [horders] at hk
    rw [hlist]
    constructor
    · intro h
      exact ⟨rfl, h.not_dressed (Expr.isMarked_ones _ hunmarked)⟩
    · rintro ⟨-, hkey⟩
      exact .of_isCovered (hall.ones _) hkey (isCovered_of_plain s hplain hdistinct k hk)

end Scope

end

/-! ## Selects -/

/-- **Distinct rows are sorted by what they list.** A plain query of distinct rows is written with
these entries and keys, and a key is listed exactly when the rows are not grouped for their limit
and the key has no alias and no mark itself. -/
theorem Select.distinct_listed_iff (options : Options) {s : Select} {c : Core Select} {q : Query}
    (hc : s.body.cores.head? = some c) (hq : (s.compile options).result = .ok q)
    (hplain : s.strategy? options = some .plain) (hdistinct : q.body.distinct = true)
    (hmarks : ∀ p ∈ c.projections.tail, p.isMarked = false) :
    ∃ orders, ((s.scope options).distinctKeys (s.level options).orders).result = .ok orders ∧
      let body := { s.level options with orders := orders }
      let shape := Shape.of body (c.prepared options)
      let entries := (s.scope options).plainList shape body (c.prepared options)
      let keys := (shape.plainArrangement body (c.prepared options)).orders
      (∃ es, ((s.scope options).exprs entries).result = .ok es ∧
        q.body.columns = [es.map .expr]) ∧
      ((s.scope options).keys keys).result = .ok q.body.orders ∧
      ∀ k ∈ keys, Listed entries k.expr ↔
        shape.groupsToLimit = false ∧ k.expr.isDressed = false := by
  obtain ⟨orders, horders, hshape, hquery⟩ := plain_eq_ok hc hq hplain
  obtain ⟨hcolumns, hkeys, -, hquantifier⟩ := Scope.plain_eq_ok hquery
  rw [hquantifier] at hdistinct
  refine ⟨orders, horders, hcolumns, hkeys, Scope.listed_plain_iff _ _ ?_ hshape hdistinct⟩
  intro p hp
  rw [Core.prepared, Core.map, ← List.map_tail] at hp
  obtain ⟨p', hp', rfl⟩ := List.mem_map.1 hp
  rw [Expr.isMarked_map]
  exact hmarks p' hp'

/-- Distinct rows in the order of an alias, of a table that is listed whole and of a column, all
spelled in another case than in the list. -/
def listedThrice : Select :=
  .of
    { cores :=
        [{ projections := [.alias (.distinct (.named "a")) "n", .allOf "u", .named "B"]
           source := some (.table { name := "u" }) }]
      orders := [⟨.named "N", .asc⟩, ⟨.qualified "U" "c", .desc⟩, ⟨.named "b", .asc⟩] }

theorem distinct_listed_listedThrice :
    Statement.sql {} (.select listedThrice) =
        .ok ("SELECT DISTINCT [a] AS [n], [u].*, [B] FROM [u] " ++
          "ORDER BY [N] ASC, [U].[c] DESC, [b] ASC") ∧
      ∀ k ∈ (listedThrice.level {}).orders,
        Listed [.alias (.named "a") "n", .allOf "u", .named "B"] k.expr := by
  have hq : (listedThrice.compile {}).result = .ok _ := rfl
  obtain ⟨orders, horders, -, -, hlisted⟩ :=
    Select.distinct_listed_iff {} (s := listedThrice) rfl hq
    rfl rfl (by decide)
  obtain rfl : (listedThrice.level {}).orders = orders := Except.ok.inj horders
  have hbare : ∀ k ∈ (listedThrice.level {}).orders, k.expr.isDressed = false := by decide
  exact ⟨by decide +kernel, fun k hk => (hlisted k hk).2 ⟨rfl, hbare k hk⟩⟩

/-- Distinct rows that are asked for twice, limited and in the order of what they project. -/
def distinctTwice : Select :=
  .of
    { cores :=
        [{ projections := [.distinct (.named "a")]
           source := some (.table { name := "t" })
           distinct := true }]
      orders := [⟨.named "a", .asc⟩]
      limit := some (.int 5) }

/-- The rows are grouped for their limit and sorted by an aggregate, which is not listed. -/
theorem distinct_not_listed_distinctTwice :
    distinctTwice.strategy? {} = some .plain ∧
      Statement.sql {} (.select distinctTwice) =
        .ok "SELECT DISTINCT TOP (5) [a] FROM [t] GROUP BY [a] ORDER BY MIN([a]) ASC" ∧
      ¬ Listed ([.named "a"] : List (Expr Compiled)) (.aggregateOf .min (.named "a")) := by
  refine ⟨rfl, by decide +kernel, ?_⟩
  rintro (⟨e, he, hsame⟩ | ⟨name, hcolumn, -⟩ | ⟨table, name, hcolumn, -⟩)
  · obtain rfl := List.mem_singleton.1 he
    cases hsame
  · cases hcolumn
  · cases hcolumn

end Transact
