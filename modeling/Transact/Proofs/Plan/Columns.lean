import Transact.Proofs.DistinctOrder
import Transact.Proofs.Plan.Within

/-!
# The columns of a select list

An item of a select list gives its column a name, or stands for all columns of some tables, and it
refers to columns itself.

* `Expr.columnName?`, `Expr.wildcard?`, `Expr.columnRefs`: the name of an item, the tables it stands
  for, and the columns in it.
* `Expr.map_unit_mapM`: compilation changes nothing but subqueries, so all of these are the same for
  the compiled item (`Scope.columnName?_expr` and the lemmas after it).
* `Expr.mem_names_of_columnName?`, `Expr.mem_names_of_columnRefs`: all of these names are in use.
-/

set_option autoImplicit false

namespace Transact

namespace Expr

variable {σ τ : Type}

/-! ## Names -/

/-- The name that an item of a select list gives its column: its alias, or the name of the column
that it is. -/
def columnName? : Expr σ → Option String
  | .alias _ name => some name
  | .column c => some c.name
  | .distinct e => columnName? e
  | _ => none

/-- The item stands for all columns: of every table, or of those with this qualifier. -/
def wildcard? : Expr σ → Option (Option String)
  | .wildcard table => some table
  | .distinct e => wildcard? e
  | _ => none

theorem columnName?_map (f : σ → τ) : ∀ e : Expr σ, (e.map f).columnName? = e.columnName?
  | .distinct e => columnName?_map f e
  | .column _ | .wildcard _ | .literal _ | .typed _ _ | .aggregate _ _ _ | .call _ _ | .alias _ _
  | .binary _ _ _ | .not _ | .isNull _ _ | .inList _ _ _ | .inSubquery _ _ _
  | .grouping _ | .caseSensitive _ | .raw _ => rfl

theorem wildcard?_map (f : σ → τ) : ∀ e : Expr σ, (e.map f).wildcard? = e.wildcard?
  | .distinct e => wildcard?_map f e
  | .column _ | .wildcard _ | .literal _ | .typed _ _ | .aggregate _ _ _ | .call _ _ | .alias _ _
  | .binary _ _ _ | .not _ | .isNull _ _ | .inList _ _ _ | .inSubquery _ _ _
  | .grouping _ | .caseSensitive _ | .raw _ => rfl

/-- The name of an item is in use. -/
theorem mem_names_of_columnName? {n : String} : ∀ {e : Expr σ}, e.columnName? = some n → n ∈ e.names
  | .alias _ _, h | .column _, h => by
    rw [← Option.some.inj h, names]
    exact List.mem_cons_self
  | .distinct e, h => by
    rw [names]
    exact mem_names_of_columnName? (e := e) h
  | .wildcard _, h | .literal _, h | .typed _ _, h | .aggregate _ _ _, h | .call _ _, h
  | .binary _ _ _, h | .not _, h | .isNull _ _, h | .inList _ _ _, h | .inSubquery _ _ _, h
  | .grouping _, h | .caseSensitive _, h | .raw _, h => by cases h

/-! ## References -/

mutual

/-- The columns that an expression refers to, those in its subqueries excepted. -/
def columnRefs : Expr σ → List ColumnRef
  | .column c => [c]
  | .wildcard _ => []
  | .literal _ => []
  | .typed _ _ => []
  | .aggregate _ args _ => columnRefsList args
  | .call _ args => columnRefsList args
  | .alias e _ => columnRefs e
  | .distinct e => columnRefs e
  | .binary l _ r => columnRefs l ++ columnRefs r
  | .not e => columnRefs e
  | .isNull e _ => columnRefs e
  | .inList e list _ => columnRefs e ++ columnRefsList list
  | .inSubquery e _ _ => columnRefs e
  | .grouping e => columnRefs e
  | .caseSensitive e => columnRefs e
  | .raw _ => []

/-- The columns that the expressions refer to. -/
def columnRefsList : List (Expr σ) → List ColumnRef
  | [] => []
  | e :: es => columnRefs e ++ columnRefsList es

end

mutual

theorem columnRefs_map (f : σ → τ) : ∀ e : Expr σ, (e.map f).columnRefs = e.columnRefs
  | .column _ | .wildcard _ | .literal _ | .typed _ _ | .raw _ => rfl
  | .aggregate _ args _ | .call _ args => by
    rw [map, columnRefs, columnRefs, columnRefsList_map f args]
  | .alias e _ | .distinct e | .not e | .isNull e _ | .grouping e | .caseSensitive e
  | .inSubquery e _ _ => by rw [map, columnRefs, columnRefs, columnRefs_map f e]
  | .binary l _ r => by
    rw [map, columnRefs, columnRefs, columnRefs_map f l, columnRefs_map f r]
  | .inList e list _ => by
    rw [map, columnRefs, columnRefs, columnRefs_map f e, columnRefsList_map f list]

theorem columnRefsList_map (f : σ → τ) : ∀ es : List (Expr σ),
    columnRefsList (mapList f es) = columnRefsList es
  | [] => rfl
  | e :: es => by
    rw [mapList, columnRefsList, columnRefsList, columnRefs_map f e, columnRefsList_map f es]

end

mutual

theorem columnRefs_rename (r : Renaming) : ∀ e : Expr σ,
    (e.rename r).columnRefs = e.columnRefs.map r.column
  | .column _ | .wildcard _ | .literal _ | .typed _ _ | .raw _ => rfl
  | .aggregate _ args _ | .call _ args => by
    rw [rename, columnRefs, columnRefs, columnRefsList_rename r args]
  | .alias e _ | .distinct e | .not e | .isNull e _ | .grouping e | .caseSensitive e
  | .inSubquery e _ _ => by rw [rename, columnRefs, columnRefs, columnRefs_rename r e]
  | .binary left _ right => by
    rw [rename, columnRefs, columnRefs, columnRefs_rename r left, columnRefs_rename r right,
      List.map_append]
  | .inList e list _ => by
    rw [rename, columnRefs, columnRefs, columnRefs_rename r e, columnRefsList_rename r list,
      List.map_append]

theorem columnRefsList_rename (r : Renaming) : ∀ es : List (Expr σ),
    columnRefsList (renameList r es) = (columnRefsList es).map r.column
  | [] => rfl
  | e :: es => by
    rw [renameList, columnRefsList, columnRefsList, columnRefs_rename r e,
      columnRefsList_rename r es, List.map_append]

end

mutual

theorem occurs_of_mem_columnRefs {ref : ColumnRef} : ∀ {e : Expr σ}, ref ∈ e.columnRefs →
    Occurs (.column ref) e
  | .column _, h => by
    rw [List.mem_singleton.1 h]
    exact .self
  | .wildcard _, h | .literal _, h | .typed _ _, h | .raw _, h => by cases h
  | .aggregate _ args _, h | .call _ args, h => by
    have hargs : ref ∈ columnRefsList args := h
    obtain ⟨e, he, h⟩ := occurs_of_mem_columnRefsList hargs
    exact .operand he h
  | .alias e _, h | .distinct e, h | .not e, h | .isNull e _, h | .grouping e, h
  | .caseSensitive e, h | .inSubquery e _ _, h =>
    .operand List.mem_cons_self (occurs_of_mem_columnRefs (e := e) h)
  | .binary left _ right, h => by
    rcases List.mem_append.1 h with h | h
    · exact .operand List.mem_cons_self (occurs_of_mem_columnRefs h)
    · exact .operand (List.mem_cons_of_mem _ List.mem_cons_self) (occurs_of_mem_columnRefs h)
  | .inList e list _, h => by
    rcases List.mem_append.1 h with h | h
    · exact .operand List.mem_cons_self (occurs_of_mem_columnRefs h)
    · obtain ⟨e', he, h⟩ := occurs_of_mem_columnRefsList h
      exact .operand (List.mem_cons_of_mem _ he) h

theorem occurs_of_mem_columnRefsList {ref : ColumnRef} : ∀ {es : List (Expr σ)},
    ref ∈ columnRefsList es → ∃ e ∈ es, Occurs (.column ref) e
  | [], h => by cases h
  | e :: es, h => by
    rcases List.mem_append.1 h with h | h
    · exact ⟨e, List.mem_cons_self, occurs_of_mem_columnRefs h⟩
    · obtain ⟨e', he, h⟩ := occurs_of_mem_columnRefsList h
      exact ⟨e', List.mem_cons_of_mem _ he, h⟩

end

/-- The names of the columns in an expression are in use, and their qualifiers too. -/
theorem mem_names_of_columnRefs {ref : ColumnRef} {e : Expr σ} (h : ref ∈ e.columnRefs) :
    ref.name ∈ e.names ∧ ∀ t ∈ ref.table, t ∈ e.names := by
  have hnames := names_subset_of_occurs (occurs_of_mem_columnRefs h)
  refine ⟨hnames ?_, fun t ht => hnames ?_⟩
  · simp [names]
  · simp [names, Option.mem_def.1 ht]

/-! ## Projections -/

theorem columnName?_unmarked : ∀ e : Expr σ, e.unmarked.columnName? = e.columnName?
  | .distinct e => columnName?_unmarked e
  | .column _ | .wildcard _ | .literal _ | .typed _ _ | .aggregate _ _ _ | .call _ _ | .alias _ _
  | .binary _ _ _ | .not _ | .isNull _ _ | .inList _ _ _ | .inSubquery _ _ _
  | .grouping _ | .caseSensitive _ | .raw _ => rfl

theorem wildcard?_unmarked : ∀ e : Expr σ, e.unmarked.wildcard? = e.wildcard?
  | .distinct e => wildcard?_unmarked e
  | .column _ | .wildcard _ | .literal _ | .typed _ _ | .aggregate _ _ _ | .call _ _ | .alias _ _
  | .binary _ _ _ | .not _ | .isNull _ _ | .inList _ _ _ | .inSubquery _ _ _
  | .grouping _ | .caseSensitive _ | .raw _ => rfl

theorem columnRefs_unmarked : ∀ e : Expr σ, e.unmarked.columnRefs = e.columnRefs
  | .distinct e => columnRefs_unmarked e
  | .alias e _ => columnRefs_unmarked e
  | .column _ | .wildcard _ | .literal _ | .typed _ _ | .aggregate _ _ _ | .call _ _
  | .binary _ _ _ | .not _ | .isNull _ _ | .inList _ _ _ | .inSubquery _ _ _
  | .grouping _ | .caseSensitive _ | .raw _ => rfl

/-- The outer query refers to a projection by its name, or repeats it. -/
theorem columnRefs_outerName : ∀ e : Expr σ, e.unmarked.outerName.columnRefs =
    match e.columnName? with
    | some n => [⟨none, n⟩]
    | none => e.columnRefs
  | .distinct e => columnRefs_outerName e
  | .column _ | .wildcard _ | .literal _ | .typed _ _ | .aggregate _ _ _ | .call _ _ | .alias _ _
  | .binary _ _ _ | .not _ | .isNull _ _ | .inList _ _ _ | .inSubquery _ _ _
  | .grouping _ | .caseSensitive _ | .raw _ => rfl

theorem columnName?_of_alias? {e : Expr σ} {n : String} (h : e.unmarked.alias? = some n) :
    e.columnName? = some n := by
  obtain ⟨e', he⟩ := alias?_eq_some.1 h
  rw [← columnName?_unmarked, he]
  rfl

/-- A projection keeps its name when it is reduced to what it is built on. -/
theorem columnName?_bare {n : String} : ∀ {e : Expr σ}, e.columnName? = some n →
    e.bare.columnName? = some n
  | .distinct e, h => columnName?_bare (e := e) h
  | .alias _ _, h | .column _, h => h
  | .wildcard _, h | .literal _, h | .typed _ _, h | .aggregate _ _ _, h | .call _ _, h
  | .binary _ _ _, h | .not _, h | .isNull _ _, h | .inList _ _ _, h | .inSubquery _ _ _, h
  | .grouping _, h | .caseSensitive _, h | .raw _, h => by cases h

theorem isCall_of_isMarked {e : Expr σ} (h : e.isMarked = true) : e.isCall = false := by
  unfold isMarked at h
  unfold isCall
  split at h
  · rename_i heq
    rw [heq]
  · cases h

theorem isCall_map (f : σ → τ) : ∀ e : Expr σ, (e.map f).isCall = e.isCall
  | .alias e _ => isCall_map f e
  | .column _ | .wildcard _ | .literal _ | .typed _ _ | .aggregate _ _ _ | .call _ _
  | .distinct _ | .binary _ _ _ | .not _ | .isNull _ _ | .inList _ _ _ | .inSubquery _ _ _
  | .grouping _ | .caseSensitive _ | .raw _ => rfl

theorem isLiteralOne_map (f : σ → τ) (e : Expr σ) : (e.map f).isLiteralOne = e.isLiteralOne := by
  cases e with
  | literal v => cases v <;> rfl
  | _ => rfl

/-- A constant gives its column no name. -/
theorem unnamed_of_isLiteralOne : ∀ {e : Expr σ}, e.isLiteralOne = true →
    e.columnName? = none ∧ e.wildcard? = none
  | .literal _, _ | .raw _, _ => ⟨rfl, rfl⟩
  | .column _, h | .wildcard _, h | .typed _ _, h | .aggregate _ _ _, h | .call _ _, h
  | .alias _ _, h | .distinct _, h | .binary _ _ _, h | .not _, h | .isNull _ _, h
  | .inList _ _ _, h | .inSubquery _ _ _, h | .grouping _, h | .caseSensitive _, h => by cases h

theorem alias?_map (f : σ → τ) (e : Expr σ) : (e.map f).alias? = e.alias? := by
  cases e <;> rfl

mutual

theorem bare_map (f : σ → τ) : ∀ e : Expr σ, (e.map f).bare = e.bare.map f
  | .aggregate _ args _ => bareFirst_map f args
  | .distinct e => bare_map f e
  | .alias e name => by rw [map, bare, bare, map, bare_map f e]
  | .column _ | .wildcard _ | .literal _ | .typed _ _ | .call _ _ | .binary _ _ _ | .not _
  | .isNull _ _ | .inList _ _ _ | .inSubquery _ _ _ | .grouping _ | .caseSensitive _ | .raw _ => rfl

theorem bareFirst_map (f : σ → τ) : ∀ es : List (Expr σ),
    bareFirst (mapList f es) = (bareFirst es).map f
  | [] => rfl
  | e :: _ => bare_map f e

end

mutual

/-- What a projection is built on uses no other names. -/
theorem names_bare_subset : ∀ e : Expr σ, e.bare.names ⊆ e.names
  | .aggregate _ args _ => names_bareFirst_subset args
  | .distinct e => names_bare_subset e
  | .alias e _ => List.cons_subset_cons _ (names_bare_subset e)
  | .column _ | .wildcard _ | .literal _ | .typed _ _ | .call _ _ | .binary _ _ _ | .not _
  | .isNull _ _ | .inList _ _ _ | .inSubquery _ _ _ | .grouping _ | .caseSensitive _ | .raw _ =>
    List.Subset.refl _

theorem names_bareFirst_subset : ∀ es : List (Expr σ), (bareFirst es).names ⊆ namesList es
  | [] => List.Subset.refl _
  | e :: _ => List.subset_append_of_subset_left _ (names_bare_subset e)

end

end Expr

/-! ## Compiled items -/

section

variable {σ : Type}

mutual

/-- Only the subqueries of an expression are replaced one after the other. -/
theorem Expr.map_unit_mapM {τ : Type} {f : σ → Trace τ} : ∀ {e : Expr σ} {e' : Expr τ},
    (e.mapM f).result = .ok e' → e'.map (fun _ => ()) = e.map fun _ => ()
  | .column _, _, h | .wildcard _, _, h | .literal _, _, h | .typed _ _, _, h | .raw _, _, h => by
    rw [← Except.ok.inj h]
    rfl
  | .aggregate _ args _, _, h | .call _ args, _, h => by
    obtain ⟨args', hargs, h⟩ := Trace.bind_eq_ok.1 h
    rw [← Except.ok.inj h, map, map, mapList_unit_mapListM hargs]
  | .alias e _, _, h | .distinct e, _, h | .not e, _, h | .isNull e _, _, h | .grouping e, _, h
  | .caseSensitive e, _, h => by
    obtain ⟨e', he, h⟩ := Trace.bind_eq_ok.1 h
    rw [← Except.ok.inj h, map, map, map_unit_mapM he]
  | .binary left _ right, _, h => by
    obtain ⟨left', hleft, h⟩ := Trace.bind_eq_ok.1 h
    obtain ⟨right', hright, h⟩ := Trace.bind_eq_ok.1 h
    rw [← Except.ok.inj h, map, map, map_unit_mapM hleft, map_unit_mapM hright]
  | .inList e list _, _, h => by
    obtain ⟨e', he, h⟩ := Trace.bind_eq_ok.1 h
    obtain ⟨list', hlist, h⟩ := Trace.bind_eq_ok.1 h
    rw [← Except.ok.inj h, map, map, map_unit_mapM he, mapList_unit_mapListM hlist]
  | .inSubquery e _ _, _, h => by
    obtain ⟨e', he, h⟩ := Trace.bind_eq_ok.1 h
    obtain ⟨q, -, h⟩ := Trace.bind_eq_ok.1 h
    rw [← Except.ok.inj h, map, map, map_unit_mapM he]

theorem Expr.mapList_unit_mapListM {τ : Type} {f : σ → Trace τ} :
    ∀ {es : List (Expr σ)} {es' : List (Expr τ)}, (mapListM f es).result = .ok es' →
      mapList (fun _ => ()) es' = mapList (fun _ => ()) es
  | [], _, h => by
    rw [← Except.ok.inj h]
    rfl
  | e :: es, _, h => by
    obtain ⟨e', he, h⟩ := Trace.bind_eq_ok.1 h
    obtain ⟨es', hes, h⟩ := Trace.bind_eq_ok.1 h
    rw [← Except.ok.inj h, mapList, mapList, map_unit_mapM he, mapList_unit_mapListM hes]

end

namespace Scope

variable {sc : Scope σ} {e : Expr σ} {e' : Expr Query}

theorem columnName?_expr (h : (sc.expr e).result = .ok e') : e'.columnName? = e.columnName? := by
  rw [← e'.columnName?_map fun _ => (), ← e.columnName?_map fun _ => ()]
  rw [Expr.map_unit_mapM h]

theorem wildcard?_expr (h : (sc.expr e).result = .ok e') : e'.wildcard? = e.wildcard? := by
  rw [← e'.wildcard?_map fun _ => (), ← e.wildcard?_map fun _ => ()]
  rw [Expr.map_unit_mapM h]

theorem columnRefs_expr (h : (sc.expr e).result = .ok e') : e'.columnRefs = e.columnRefs := by
  rw [← e'.columnRefs_map fun _ => (), ← e.columnRefs_map fun _ => ()]
  rw [Expr.map_unit_mapM h]

end Scope

end

end Transact
