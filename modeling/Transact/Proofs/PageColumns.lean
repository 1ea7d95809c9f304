import Transact.Proofs.Plan.Builds
import Transact.Proofs.Plan.Columns

/-!
# The columns of a page

The numbered rows of a page have the columns of the select, the number of the row, and a name for
each constant `1`. A name of the compiler is meant to be that of one column. It is, unless a
wildcard brings in a column of that name, or two constants get the same one.

* `Query.givenNames`: the names of the columns that a select list gives, those of the known columns
  behind a wildcard among them.
* `Scope.occurrences_projections`: how often a name of the compiler is among those of the
  projections.
* `Select.page_names_one_iff`: when each name of the compiler is that of one column.
-/

set_option autoImplicit false

namespace Transact

open Text (lower)

/-! ## The names that a list gives -/

/-- The qualifier is that of the table, in letters of either case: its alias or else its name, which
may have the schema before it. -/
def TableRef.answersTo (t : TableRef) (qualifier : String) : Bool :=
  lower qualifier == lower t.qualifier ||
    t.aliasName.isNone && t.schema.any fun s => lower qualifier == lower (s ++ "." ++ t.name)

/-- The known columns of the tables that a wildcard covers. -/
def coveredColumns (tables : List TableRef) (wildcard : Option String) : List String :=
  (tables.filter fun t => wildcard.all t.answersTo).flatMap TableRef.columns

section

variable {σ τ : Type}

/-- The columns that an item of a select list brings in as a wildcard. -/
def Expr.broughtIn (tables : List TableRef) (e : Expr σ) : List String :=
  e.wildcard?.toList.flatMap (coveredColumns tables)

/-- The names of the columns that an item of a select list gives. -/
def Expr.givenNames (tables : List TableRef) (e : Expr σ) : List String :=
  e.columnName?.toList ++ e.broughtIn tables

/-- The names of the columns that a column of a query gives. -/
def Column.givenNames (tables : List TableRef) : Column σ → List String
  | .expr e => e.givenNames tables
  | .ranked _ name => [name]

/-- The tables that rows are drawn from. -/
def Rows.tables : Rows σ → List TableRef
  | .source s _ => s.tables
  | .derived _ _ => []

/-- How often a name is among others, in letters of either case. -/
def occurrences (n : String) (names : List String) : Nat := (names.map lower).count (lower n)

theorem occurrences_append (n : String) (ns ns' : List String) :
    occurrences n (ns ++ ns') = occurrences n ns + occurrences n ns' := by
  rw [occurrences, List.map_append, List.count_append]
  rfl

theorem occurrences_eq_zero {n : String} {names : List String} :
    occurrences n names = 0 ↔ ∀ m ∈ names, lower m ≠ lower n := by
  rw [occurrences, List.count_eq_zero, List.mem_map]
  simp only [not_exists, not_and, ne_eq]

end

namespace Query

/-- The tables that a query draws on directly. -/
def tables (q : Query) : List TableRef := q.body.rows.toList.flatMap Rows.tables

/-- The names of the columns that a query gives. -/
def givenNames (q : Query) : List String :=
  q.body.columns.flatten.flatMap (Column.givenNames q.tables)

/-- The query gives exactly one column of this name, in letters of either case. -/
def NamesOne (q : Query) (n : String) : Prop := occurrences n q.givenNames = 1

instance (q : Query) (n : String) : Decidable (q.NamesOne n) :=
  inferInstanceAs (Decidable (_ = 1))

end Query

/-! ## Tables -/

section

variable {σ τ : Type}

theorem Source.tables_map (f : σ → τ) : ∀ s : Source σ, (s.map f).tables = s.tables
  | .table _ => rfl
  | .raw _ => rfl
  | .join _ left right _ => by rw [map, tables, tables, tables_map f left, tables_map f right]

theorem Source.tables_correlated (s : Source σ) : s.correlated.1.tables = s.tables := by
  unfold correlated
  split
  · split <;> rfl
  · rfl

theorem Source.tables_mapM {f : σ → Trace τ} : ∀ {s : Source σ} {s' : Source τ},
    (s.mapM f).result = .ok s' → s'.tables = s.tables
  | .table _, _, h | .raw _, _, h => by
    rw [← Except.ok.inj h]
    rfl
  | .join kind left right condition, s', h => by
    obtain ⟨left', hleft, h⟩ := Trace.bind_eq_ok.1 h
    obtain ⟨right', hright, h⟩ := Trace.bind_eq_ok.1 h
    have hjoin : ∃ condition', s' = .join kind left' right' condition' := by
      split at h
      · exact ⟨_, (Except.ok.inj h).symm⟩
      · exact ⟨_, (Except.ok.inj h).symm⟩
      · exact ⟨_, (Except.ok.inj h).symm⟩
      · obtain ⟨condition', -, h⟩ := Trace.bind_eq_ok.1 h
        exact ⟨_, (Except.ok.inj h).symm⟩
    obtain ⟨condition', rfl⟩ := hjoin
    rw [tables, tables, tables_mapM hleft, tables_mapM hright]

/-- The tables that a core draws on. -/
def Core.tables (c : Core σ) : List TableRef := c.source.toList.flatMap Source.tables

theorem Core.tables_prepared (options : Options) (c : Core Select) :
    (c.prepared options).tables = c.tables := by
  rw [tables, tables, prepared]
  cases c.source with
  | none => rfl
  | some source => simp [Source.tables_correlated, Source.tables_map]

/-- The rows of a frame are drawn from the tables of its core. -/
theorem Scope.tables_frame {sc : Scope σ} {s : SelectBody σ} {c : Core σ}
    {groups : List (Expr σ)} {frame : QueryBody Query}
    (h : (sc.frame s c groups).result = .ok frame) :
    frame.rows.toList.flatMap Rows.tables = c.tables := by
  obtain ⟨rows, filters, groups', having, hrows, -, -, -, rfl⟩ := frame_eq_ok.1 h
  rw [Core.tables]
  cases hsource : c.source with
  | none =>
    rw [hsource] at hrows
    rw [← Except.ok.inj hrows]
    rfl
  | some source =>
    rw [hsource] at hrows
    obtain ⟨source', hsource', hrows⟩ := Trace.bind_eq_ok.1 hrows
    rw [← Except.ok.inj hrows]
    simp [Rows.tables, Source.tables_mapM hsource']

end

/-! ## Projections -/

section

variable {σ τ : Type}

/-- The projections of the numbered rows. Without calls they are reduced to what they are built
on. -/
def Core.pageList (c : Core σ) : List (Expr σ) :=
  if c.projections.any Expr.isCall then c.projections else c.projections.map Expr.bare

/-- The columns that the wildcards among them bring in. -/
def Core.broughtIn (c : Core σ) : List String := c.pageList.flatMap (Expr.broughtIn c.tables)

theorem Core.pageList_map (f : σ → τ) (c : Core σ) :
    (c.map f).pageList = c.pageList.map (·.map f) := by
  have hcall : (c.projections.map (·.map f)).any Expr.isCall = c.projections.any Expr.isCall := by
    simp [Function.comp_def, Expr.isCall_map]
  rw [pageList, pageList, map, hcall]
  split
  · rfl
  · simp [Function.comp_def, Expr.bare_map]

theorem Core.pageList_prepared (options : Options) (c : Core Select) :
    (c.prepared options).pageList = c.pageList.map (·.map (Select.compiled options)) :=
  c.pageList_map (Select.compiled options)

theorem Core.exists_of_mem_pageList {c : Core σ} {p : Expr σ} (h : p ∈ c.pageList) :
    ∃ p' ∈ c.projections, p.names ⊆ p'.names := by
  rw [pageList] at h
  split at h
  · exact ⟨p, h, List.Subset.refl _⟩
  · obtain ⟨p', hp', rfl⟩ := List.mem_map.1 h
    exact ⟨p', hp', p'.names_bare_subset⟩

theorem Expr.broughtIn_map (f : σ → τ) (tables : List TableRef) (e : Expr σ) :
    (e.map f).broughtIn tables = e.broughtIn tables := by
  rw [broughtIn, broughtIn, wildcard?_map]

theorem Scope.givenNames_expr {sc : Scope σ} {e : Expr σ} {e' : Expr Query}
    (tables : List TableRef) (h : (sc.expr e).result = .ok e') :
    e'.givenNames tables = e.givenNames tables := by
  rw [Expr.givenNames, Expr.givenNames, Expr.broughtIn, Expr.broughtIn, columnName?_expr h,
    wildcard?_expr h]

/-- A name that a projection does not have is given by it when it is a constant `1` under that
alias, and as often as it brings the name in. -/
theorem Scope.occurrences_item {sc : Scope σ} {n : String} {p : Expr σ} {e : Expr Query}
    (tables : List TableRef)
    (h : (sc.expr (if p.isLiteralOne then .alias p sc.names.one else p)).result = .ok e)
    (hfresh : ∀ m ∈ p.columnName?, lower m ≠ lower n) :
    occurrences n (e.givenNames tables) =
      (if lower sc.names.one = lower n ∧ p.isLiteralOne = true then 1 else 0) +
        occurrences n (p.broughtIn tables) := by
  rw [givenNames_expr tables h]
  by_cases hone : p.isLiteralOne = true
  · simp [Expr.givenNames, Expr.columnName?, Expr.broughtIn, Expr.wildcard?, occurrences, hone,
      (Expr.unnamed_of_isLiteralOne hone).2, List.count_singleton]
  · have hzero : occurrences n p.columnName?.toList = 0 :=
      occurrences_eq_zero.2 fun m hm => hfresh m (Option.mem_toList.1 hm)
    simp [hone, Expr.givenNames, occurrences_append, hzero]

/-- **A name that no projection has** is among those of the compiled projections as often as a
constant `1` gets it and as wildcards bring it in. -/
theorem Scope.occurrences_projections {sc : Scope σ} {n : String} (tables : List TableRef)
    {ps : List (Expr σ)} {columns : List (Column Query)}
    (h : (sc.projections ps).result = .ok columns)
    (hfresh : ∀ p ∈ ps, ∀ m ∈ p.columnName?, lower m ≠ lower n) :
    occurrences n (columns.flatMap (Column.givenNames tables)) =
      (if lower sc.names.one = lower n then ps.countP Expr.isLiteralOne else 0) +
        occurrences n (ps.flatMap (Expr.broughtIn tables)) := by
  obtain ⟨es, hes, rfl⟩ := projections_eq_ok.1 h
  clear h
  replace hes := exprs_eq_ok.1 hes
  rw [List.forall₂_map_left_iff] at hes
  induction hes with
  | nil => simp [occurrences]
  | @cons p e ps es he _ ih =>
    have hitem := occurrences_item tables he (hfresh p List.mem_cons_self)
    replace ih := ih fun p hp => hfresh p (List.mem_cons_of_mem _ hp)
    rw [List.map_cons, List.flatMap_cons, List.flatMap_cons, occurrences_append,
      occurrences_append, Column.givenNames, hitem, ih, List.countP_cons]
    by_cases hone : lower sc.names.one = lower n
    · simp only [hone, true_and, if_true]
      omega
    · simp only [hone, false_and, if_false]
      omega

end

/-! ## Pages -/

theorem SyntheticNames.lower_rowNumber_ne_one {n : SyntheticNames}
    (h : (n.toList.map lower).Nodup) : lower n.rowNumber ≠ lower n.one := by
  intro heq
  refine (List.nodup_cons.1 h).1 ?_
  rw [heq]
  simp

namespace Select

variable {options : Options} {s : Select} {c : Core Select} {q : Query}

/-- The names of the compiler are not those of the items of a page. -/
theorem lower_ne_of_mem_pageList (hc : s.body.cores.head? = some c) {p : Expr Select}
    (hp : p ∈ c.pageList) {m n : String} (hm : m ∈ p.columnName?)
    (hn : n ∈ (s.scope options).names.toList) : lower m ≠ lower n := by
  obtain ⟨p', hp', hnames⟩ := Core.exists_of_mem_pageList hp
  have hused : m ∈ (s.level options).names := by
    rw [level, SelectBody.names_map]
    exact SelectBody.mem_names_of_mem_projections hc hp'
      (hnames (Expr.mem_names_of_columnName? hm))
  exact (SyntheticNames.lower_ne_of_mem_avoiding hn hused).symm

/-- How often a name of the compiler is that of a column of a page: once if it is that of the row
number, once for each constant `1` that gets it, and as often as wildcards bring it in. -/
theorem occurrences_page (hc : s.body.cores.head? = some c)
    (hq : (s.compile options).result = .ok q) (h : s.strategy? options = some .paginated) :
    ∃ page, q.body.rows = some (.derived page (s.scope options).names.numbered) ∧
      ∀ n ∈ (s.scope options).names.toList, occurrences n page.givenNames =
        (if lower (s.scope options).names.rowNumber = lower n then 1 else 0) +
          ((if lower (s.scope options).names.one = lower n
            then c.pageList.countP Expr.isLiteralOne else 0) + occurrences n c.broughtIn) := by
  obtain ⟨orders, -, hpage⟩ := paginated_eq_ok hc hq h
  obtain ⟨keys, top, offset, outer, ranking, window, columns, frame, -, -, -, -, hcolumns, hframe,
    -, rfl⟩ := Scope.paginated_builds hpage
  refine ⟨_, rfl, fun n hn => ?_⟩
  have htables : frame.rows.toList.flatMap Rows.tables = c.tables := by
    rw [Scope.tables_frame hframe, Core.tables_prepared]
  have hlist : (c.prepared options).pageList = _ := c.pageList_prepared options
  have hcolumns : ((s.scope options).projections
      (c.pageList.map (·.map (compiled options)))).result = .ok columns := by
    rw [← hlist]
    exact hcolumns
  have hoccurrences := Scope.occurrences_projections c.tables hcolumns (n := n) (by
    simp only [List.mem_map, forall_exists_index, and_imp, forall_apply_eq_imp_iff₂,
      Expr.columnName?_map]
    exact fun p hp m hm => lower_ne_of_mem_pageList hc hp hm hn)
  have hgiven : Query.givenNames (.of { frame with
      distinct := (c.prepared options).distinct
      columns := [[.ranked window (s.scope options).names.rowNumber], columns] }) =
      [(s.scope options).names.rowNumber] ++ columns.flatMap (Column.givenNames c.tables) := by
    rw [← htables]
    simp [Query.givenNames, Query.tables, Query.body, Column.givenNames]
  rw [hgiven, occurrences_append, hoccurrences]
  simp [Core.broughtIn, List.countP_map, List.flatMap_map, Function.comp_def,
    Expr.isLiteralOne_map, Expr.broughtIn_map, occurrences, List.count_singleton]

/-- **A name of the compiler is that of one column of a page** exactly when no wildcard brings it in
and, for the name of a constant `1`, there is only one of those. -/
theorem page_names_one_iff (hc : s.body.cores.head? = some c)
    (hq : (s.compile options).result = .ok q) (h : s.strategy? options = some .paginated) :
    ∃ page, q.body.rows = some (.derived page (s.scope options).names.numbered) ∧
      (page.NamesOne (s.scope options).names.rowNumber ↔
        ∀ n ∈ c.broughtIn, lower n ≠ lower (s.scope options).names.rowNumber) ∧
      ((∃ p ∈ c.pageList, p.isLiteralOne = true) →
        (page.NamesOne (s.scope options).names.one ↔
          c.pageList.countP Expr.isLiteralOne = 1 ∧
            ∀ n ∈ c.broughtIn, lower n ≠ lower (s.scope options).names.one)) := by
  obtain ⟨page, hrows, hoccurrences⟩ := occurrences_page hc hq h
  have hne : lower (s.scope options).names.rowNumber ≠ lower (s.scope options).names.one := by
    exact SyntheticNames.lower_rowNumber_ne_one (SyntheticNames.nodup_avoiding _)
  refine ⟨page, hrows, ?_, fun hone => ?_⟩
  · rw [Query.NamesOne, hoccurrences _ (by simp [SyntheticNames.toList]), if_pos rfl,
      if_neg hne.symm, ← occurrences_eq_zero]
    omega
  · have hpos : 0 < c.pageList.countP Expr.isLiteralOne := List.countP_pos_iff.2 hone
    rw [Query.NamesOne, hoccurrences _ (by simp [SyntheticNames.toList]), if_neg hne,
      if_pos rfl, ← occurrences_eq_zero]
    omega

/-- A page of the columns of a table, of a column under a name of the compiler, and a constant. -/
def renamedPage : Select :=
  .of
    { cores :=
        [{ projections := [.allOf "T", .alias (.named "x") "__RN", .int 1]
           source := some (.table { name := "t", columns := ["id", "name"] }) }]
      offset := some (.int 1) }

theorem page_names_one_renamedPage :
    ∃ c q page, renamedPage.body.cores.head? = some c ∧
      (renamedPage.compile {}).result = .ok q ∧ renamedPage.strategy? {} = some .paginated ∧
      c.broughtIn = ["id", "name"] ∧ (∃ p ∈ c.pageList, p.isLiteralOne = true) ∧
      q.body.rows = some (.derived page "__rnt") ∧ page.NamesOne "__rn_1" ∧
      page.NamesOne "__wrp" := by
  have hq : (renamedPage.compile {}).result = .ok _ := rfl
  have hstrategy : renamedPage.strategy? {} = some .paginated := rfl
  have hnames : (renamedPage.scope {}).names.numbered = "__rnt" ∧
      (renamedPage.scope {}).names.rowNumber = "__rn_1" ∧
      (renamedPage.scope {}).names.one = "__wrp" := by decide +kernel
  obtain ⟨c, hc⟩ : ∃ c, renamedPage.body.cores.head? = some c := ⟨_, rfl⟩
  have hbrought : c.broughtIn = ["id", "name"] := by
    rw [← Option.some.inj hc]
    decide +kernel
  have hcount : c.pageList.countP Expr.isLiteralOne = 1 := by
    rw [← Option.some.inj hc]
    decide +kernel
  have hone : ∃ p ∈ c.pageList, p.isLiteralOne = true :=
    List.countP_pos_iff.1 (by rw [hcount]; decide)
  obtain ⟨page, hrows, hrow_iff, hone_iff⟩ := page_names_one_iff hc hq hstrategy
  rw [hnames.1] at hrows
  rw [hnames.2.1, hbrought] at hrow_iff
  rw [hnames.2.2, hbrought] at hone_iff
  refine ⟨c, _, page, hc, hq, hstrategy, hbrought, hone, hrows, hrow_iff.2 ?_,
    (hone_iff hone).2 ⟨hcount, ?_⟩⟩
  · decide +kernel
  · decide +kernel

/-- A page of all columns of a table, one of which has a name of the compiler. -/
def starPage : Select :=
  .of
    { cores :=
        [{ projections := [.star], source := some (.table { name := "t", columns := ["__rn"] }) }]
      offset := some (.int 1) }

/-- A page of two constants. -/
def onesPage : Select :=
  .of
    { cores := [{ projections := [.int 1, .int 1], source := some (.table { name := "t" }) }]
      offset := some (.int 1) }

/-- A column that a wildcard brings in may have the name of the row number, and two constants get
one name. -/
theorem page_not_names_one :
    (∃ q page, (starPage.compile {}).result = .ok q ∧ starPage.strategy? {} = some .paginated ∧
      q.body.rows = some (.derived page "__rnt") ∧
      (starPage.scope {}).names.rowNumber = "__rn" ∧ ¬page.NamesOne "__rn") ∧
    ∃ q page, (onesPage.compile {}).result = .ok q ∧ onesPage.strategy? {} = some .paginated ∧
      q.body.rows = some (.derived page "__rnt") ∧
      (onesPage.scope {}).names.one = "__wrp" ∧ ¬page.NamesOne "__wrp" := by
  refine ⟨⟨_, _, rfl, rfl, rfl, ?_, ?_⟩, _, _, rfl, rfl, rfl, ?_, ?_⟩
  · decide +kernel
  · decide +kernel
  · decide +kernel
  · decide +kernel

end Select

end Transact
