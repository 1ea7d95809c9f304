import Transact.Proofs.Plan.Hygiene
import Transact.Proofs.Plan.Runs
import Transact.Proofs.Sql.Reader

/-!
# What statements and queries are made of

A lexicon says which names, constants and verbatim texts a statement may be made of, and a predicate
which subqueries. `Expr.Within` holds of an expression when all that occurs in it is of these, and
likewise for sources, levels and queries.

* `Expr.within_iff`: an expression is within a lexicon when its head and its operands are.
* `Expr.Within.of_simulates`: what holds step by step between two expressions carries `Within` over;
  replacing subqueries, compiling and redirecting references are instances.
* `Expr.Within.bare`, `Expr.Within.unmarked`, `Expr.Within.unaliased`: the changes that a projection
  goes through stay within.
-/

set_option autoImplicit false

namespace Transact

/-- What a statement may be made of. -/
structure Lexicon where
  /-- names of columns, tables and aliases, and each dotted part of a qualifier -/
  name : String → Prop
  /-- names of functions and hints, which are written as they stand -/
  verbatim : String → Prop
  constant : Literal → Prop
  /-- raw expressions -/
  raw : String → Prop
  /-- sources may be raw -/
  fragment : Prop

/-- The dotted parts of a qualifier. -/
def nameParts (s : String) : List String := (Text.split '.' s.toList).map String.ofList

/-! ## Expressions -/

namespace Expr

variable {σ τ : Type} {lex : Lexicon} {p : σ → Prop} {p' : τ → Prop}

/-- What stands at the head of the expression is of the lexicon, and its subquery satisfies `p`. -/
def Fits (lex : Lexicon) (p : σ → Prop) : Expr σ → Prop
  | .column c => ∀ n ∈ c.path, lex.name n
  | .wildcard table => ∀ n ∈ table.elim [] nameParts, lex.name n
  | .literal v => lex.constant v
  | .typed v _ => lex.constant v
  | .aggregate _ _ _ => True
  | .call f _ => lex.verbatim f
  | .alias _ n => lex.name n
  | .distinct _ => True
  | .binary _ _ _ => True
  | .not _ => True
  | .isNull _ _ => True
  | .inList _ _ _ => True
  | .inSubquery _ q _ => p q
  | .grouping _ => True
  | .caseSensitive _ => True
  | .raw s => lex.raw s

/-- All that occurs in the expression is of the lexicon, and its subqueries satisfy `p`. -/
def Within (lex : Lexicon) (p : σ → Prop) (e : Expr σ) : Prop := ∀ x, Occurs x e → x.Fits lex p

/-- What occurs in an expression is its head, or occurs in one of its operands. -/
theorem forall_occurs_iff {P : Expr σ → Prop} {e : Expr σ} :
    (∀ x, Occurs x e → P x) ↔ P e ∧ ∀ o ∈ e.operands, ∀ x, Occurs x o → P x := by
  constructor
  · intro h
    exact ⟨h e .self, fun o ho x hx => h x (.operand ho hx)⟩
  · rintro ⟨hhead, hoperands⟩ x hx
    cases hx with
    | self => exact hhead
    | operand hmem hx => exact hoperands _ hmem x hx

theorem forall_occurs_of_leaf {P : Expr σ → Prop} {e : Expr σ} (hoperands : e.operands = [])
    (h : P e) : ∀ x, Occurs x e → P x :=
  forall_occurs_iff.2 ⟨h, fun o ho => by rw [hoperands] at ho; cases ho⟩

/-- **An expression is within** a lexicon when its head and its operands are. -/
theorem within_iff {e : Expr σ} :
    e.Within lex p ↔ e.Fits lex p ∧ ∀ x ∈ e.operands, x.Within lex p :=
  forall_occurs_iff

theorem Within.fits {e : Expr σ} (h : e.Within lex p) : e.Fits lex p := h e .self

theorem Within.operand {e x : Expr σ} (h : e.Within lex p) (hx : x ∈ e.operands) :
    x.Within lex p := (within_iff.1 h).2 x hx

theorem within_of_leaf {e : Expr σ} (hoperands : e.operands = []) (h : e.Fits lex p) :
    e.Within lex p :=
  forall_occurs_of_leaf hoperands h

/-- **A relation between expressions** whose operands are related in turn carries `Within` over, if
it does so for the heads. -/
theorem Within.of_simulates {R : Expr σ → Expr τ → Prop}
    (hfits : ∀ {e e'}, R e e' → e.Fits lex p → e'.Fits lex p')
    (hoperands : ∀ {e e'}, R e e' → ∀ o' ∈ e'.operands, ∃ o ∈ e.operands, R o o')
    {e : Expr σ} {e' : Expr τ} (hR : R e e') (h : e.Within lex p) : e'.Within lex p' := by
  intro x hx
  induction hx generalizing e with
  | self => exact hfits hR h.fits
  | operand hmem _ ih =>
    obtain ⟨o, ho, hRo⟩ := hoperands hR _ hmem
    exact ih hRo (h.operand ho)

/-! ### Subqueries -/

theorem subqueries_operand {o : Expr σ} : ∀ {e : Expr σ}, o ∈ e.operands →
    o.subqueries ⊆ e.subqueries
  | .column _, h | .wildcard _, h | .literal _, h | .typed _ _, h | .raw _, h => by cases h
  | .aggregate _ _ _, h | .call _ _, h => subset_subqueriesList h
  | .alias e _, h | .distinct e, h | .not e, h | .isNull e _, h | .grouping e, h
  | .caseSensitive e, h => by
    rw [List.mem_singleton.1 h]
    exact List.Subset.refl _
  | .binary l _ r, h => by
    rcases List.mem_cons.1 h with rfl | h
    · exact List.subset_append_left _ _
    · rw [List.mem_singleton.1 h]
      exact List.subset_append_right _ _
  | .inList e list _, h => by
    rcases List.mem_cons.1 h with rfl | h
    · exact List.subset_append_left _ _
    · exact List.subset_append_of_subset_right _ (subset_subqueriesList h)
  | .inSubquery e q _, h => by
    rw [List.mem_singleton.1 h]
    exact List.subset_append_left _ _

theorem subqueries_of_occurs {x e : Expr σ} (h : Occurs x e) : x.subqueries ⊆ e.subqueries := by
  induction h with
  | self => exact List.Subset.refl _
  | operand hmem _ ih => exact List.Subset.trans ih (subqueries_operand hmem)

/-! ### Replaced subqueries -/

theorem operands_map (f : σ → τ) (e : Expr σ) :
    (e.map f).operands = e.operands.map (·.map f) := by
  cases e <;> simp [map, operands, mapList_eq]

theorem Within.map {f : σ → τ} (hf : ∀ q, p q → p' (f q)) {e : Expr σ} (h : e.Within lex p) :
    (e.map f).Within lex p' := by
  refine Within.of_simulates (R := fun e e' => e' = e.map f) ?_ ?_ rfl h
  · rintro e _ rfl he
    cases e <;> first | exact he | exact hf _ he
  · rintro e _ rfl o' ho'
    rw [operands_map] at ho'
    obtain ⟨o, ho, rfl⟩ := List.mem_map.1 ho'
    exact ⟨o, ho, rfl⟩

/-! ### Redirected references -/

theorem renameList_eq (r : Renaming) (es : List (Expr σ)) :
    renameList r es = es.map (rename r) := by
  induction es with
  | nil => rfl
  | cons e es ih => rw [renameList, ih, List.map_cons]

theorem operands_rename (r : Renaming) (e : Expr σ) :
    (e.rename r).operands = e.operands.map (rename r) := by
  cases e <;> simp [rename, operands, renameList_eq]

theorem Within.requalify {source target : String} (htarget : ∀ n ∈ nameParts target, lex.name n)
    {e : Expr σ} (h : e.Within lex p) : (e.requalify source target).Within lex p := by
  refine Within.of_simulates (R := fun e e' => e' = e.requalify source target) ?_ ?_ rfl h
  · rintro e _ rfl he
    cases e with
    | column c =>
      intro n hn
      simp only [Renaming.requalify] at hn
      split at hn
      · rcases List.mem_append.1 hn with hn | hn
        · exact htarget n hn
        · exact he n (List.mem_append_right _ hn)
      · exact he n hn
    | wildcard table =>
      cases table with
      | none => exact he
      | some table =>
        intro n hn
        simp only [Renaming.requalify, Option.map_some, Option.elim_some] at hn
        split at hn
        · exact htarget n hn
        · exact he n hn
    | _ => exact he
  · rintro e _ rfl o' ho'
    rw [Expr.requalify, operands_rename] at ho'
    obtain ⟨o, ho, rfl⟩ := List.mem_map.1 ho'
    exact ⟨o, ho, rfl⟩

/-! ### Projections -/

theorem within_star : (star : Expr σ).Within lex p :=
  within_of_leaf rfl fun n hn => by simp at hn

theorem within_named {n : String} (h : lex.name n) : (named n : Expr σ).Within lex p := by
  refine within_of_leaf rfl fun m hm => ?_
  rwa [List.mem_singleton.1 hm]

theorem within_qualified {table n : String} (htable : ∀ part ∈ nameParts table, lex.name part)
    (h : lex.name n) : (qualified table n : Expr σ).Within lex p := by
  refine within_of_leaf rfl fun m hm => ?_
  rcases List.mem_append.1 hm with hm | hm
  · exact htable m hm
  · rwa [List.mem_singleton.1 hm]

theorem within_allOf {table : String} (h : ∀ part ∈ nameParts table, lex.name part) :
    (allOf table : Expr σ).Within lex p :=
  within_of_leaf rfl h

theorem within_int {i : Int64} (h : lex.constant (.integer i)) : (int i : Expr σ).Within lex p :=
  within_of_leaf rfl h

theorem within_alias {e : Expr σ} {n : String} :
    (Expr.alias e n).Within lex p ↔ lex.name n ∧ e.Within lex p := by
  rw [within_iff]
  simp [operands, Fits]

theorem within_binary {l r : Expr σ} {op : BinaryOp} :
    (binary l op r).Within lex p ↔ l.Within lex p ∧ r.Within lex p := by
  rw [within_iff]
  simp [operands, Fits]

theorem within_grouping {e : Expr σ} : (grouping e).Within lex p ↔ e.Within lex p := by
  rw [within_iff]
  simp [operands, Fits]

theorem within_aggregate {fn : AggregateFn} {args : List (Expr σ)} {d : Bool} :
    (aggregate fn args d).Within lex p ↔ ∀ e ∈ args, e.Within lex p := by
  rw [within_iff]
  simp [operands, Fits]

theorem Within.unaliased : ∀ {e : Expr σ}, e.Within lex p → e.unaliased.Within lex p
  | .alias e _, h => Within.unaliased (e := e) (within_alias.1 h).2
  | .column _, h | .wildcard _, h | .literal _, h | .typed _ _, h | .aggregate _ _ _, h
  | .call _ _, h | .distinct _, h | .binary _ _ _, h | .not _, h | .isNull _ _, h
  | .inList _ _ _, h | .inSubquery _ _ _, h | .grouping _, h | .caseSensitive _, h
  | .raw _, h => h

theorem Within.unmarked : ∀ {e : Expr σ}, e.Within lex p → e.unmarked.Within lex p
  | .distinct e, h => Within.unmarked (e := e) (h.operand List.mem_cons_self)
  | .alias e _, h => by
    obtain ⟨hn, he⟩ := within_alias.1 h
    exact within_alias.2 ⟨hn, Within.unmarked (e := e) he⟩
  | .column _, h | .wildcard _, h | .literal _, h | .typed _ _, h | .aggregate _ _ _, h
  | .call _ _, h | .binary _ _ _, h | .not _, h | .isNull _ _, h
  | .inList _ _ _, h | .inSubquery _ _ _, h | .grouping _, h | .caseSensitive _, h
  | .raw _, h => h

mutual

theorem Within.bare : ∀ {e : Expr σ}, e.Within lex p → e.bare.Within lex p
  | .aggregate _ args _, h => Within.bareFirst args (within_aggregate.1 h)
  | .distinct e, h => Within.bare (e := e) (h.operand List.mem_cons_self)
  | .alias e _, h => by
    obtain ⟨hn, he⟩ := within_alias.1 h
    exact within_alias.2 ⟨hn, Within.bare (e := e) he⟩
  | .column _, h | .wildcard _, h | .literal _, h | .typed _ _, h | .call _ _, h
  | .binary _ _ _, h | .not _, h | .isNull _ _, h | .inList _ _ _, h | .inSubquery _ _ _, h
  | .grouping _, h | .caseSensitive _, h | .raw _, h => h

theorem Within.bareFirst : ∀ es : List (Expr σ), (∀ e ∈ es, e.Within lex p) →
    (bareFirst es).Within lex p
  | [], _ => within_star
  | e :: _, h => Within.bare (e := e) (h e List.mem_cons_self)

end

theorem Within.outerName : ∀ {e : Expr σ}, e.Within lex p → e.outerName.Within lex p
  | .alias _ _, h => within_named (within_alias.1 h).1
  | .column _, h => within_named (h.fits _ (List.mem_append_right _ (List.mem_singleton_self _)))
  | .wildcard _, _ => within_star
  | .literal _, h | .typed _ _, h | .aggregate _ _ _, h | .call _ _, h | .distinct _, h
  | .binary _ _ _, h | .not _, h | .isNull _ _, h | .inList _ _ _, h | .inSubquery _ _ _, h
  | .grouping _, h | .caseSensitive _, h | .raw _, h => h

theorem Within.plus {a b : Expr σ} (hint : ∀ i, lex.constant (.integer i)) (ha : a.Within lex p)
    (hb : b.Within lex p) : (a.plus b).Within lex p := by
  unfold Expr.plus
  split
  · exact within_int (hint _)
  · exact within_binary.2 ⟨ha, hb⟩

end Expr

/-! ## Levels -/

section

variable {σ τ : Type} {lex : Lexicon} {p : σ → Prop} {p' : τ → Prop}

/-- The table is written with names of the lexicon, and so are its known columns. -/
structure TableRef.Within (lex : Lexicon) (t : TableRef) : Prop where
  names : ∀ n ∈ t.schema.toList ++ t.name :: t.aliasName.toList, lex.name n
  columns : ∀ c ∈ t.keyColumn?.toList ++ t.columnRefs, ∀ n ∈ c.path, lex.name n

/-- The tables and conditions of the source are within the lexicon. -/
def Source.Within (lex : Lexicon) (p : σ → Prop) : Source σ → Prop
  | .table t => t.Within lex
  | .join _ left right condition =>
    left.Within lex p ∧ right.Within lex p ∧ ∀ e ∈ condition, e.Within lex p
  | .raw _ => lex.fragment

/-- The parts of the core are within the lexicon. -/
structure Core.Within (lex : Lexicon) (p : σ → Prop) (c : Core σ) : Prop where
  projections : ∀ e ∈ c.projections, e.Within lex p
  source : ∀ s ∈ c.source, s.Within lex p
  wheres : ∀ e ∈ c.wheres, e.Within lex p
  groups : ∀ e ∈ c.groups, e.Within lex p
  having : ∀ e ∈ c.having, e.Within lex p

/-- The parts of the level are within the lexicon. -/
structure SelectBody.Within (lex : Lexicon) (p : σ → Prop) (s : SelectBody σ) : Prop where
  cores : ∀ c ∈ s.cores, c.Within lex p
  orders : ∀ k ∈ s.orders, k.expr.Within lex p
  limit : ∀ e ∈ s.limit, e.Within lex p
  offset : ∀ e ∈ s.offset, e.Within lex p
  lock : ∀ text, s.lock = some (.hint text) → lex.verbatim text

theorem Source.within_iff : ∀ {s : Source σ}, s.Within lex p ↔
    ((∀ t ∈ s.tables, t.Within lex) ∧ (s.hasRaw = true → lex.fragment)) ∧
      ∀ e ∈ s.conditions, e.Within lex p
  | .table _ => by simp [Within, tables, hasRaw, conditions]
  | .raw _ => by simp [Within, tables, hasRaw, conditions]
  | .join _ left right condition => by
    simp only [Within, within_iff (s := left), within_iff (s := right), tables, hasRaw, conditions,
      List.forall_mem_append, Bool.or_eq_true, or_imp, Option.mem_toList]
    tauto

/-- A level is within a lexicon when its expressions and its sources are. -/
theorem SelectBody.within_of_exprs {s : SelectBody σ} (hexprs : ∀ e ∈ s.exprs, e.Within lex p)
    (hsources : ∀ source ∈ s.cores.flatMap (·.source.toList),
      (∀ t ∈ source.tables, t.Within lex) ∧ (source.hasRaw = true → lex.fragment))
    (hlock : ∀ text, s.lock = some (.hint text) → lex.verbatim text) : s.Within lex p := by
  simp only [exprs, List.forall_mem_append, List.forall_mem_map, Option.mem_toList] at hexprs
  obtain ⟨⟨⟨hcores, horders⟩, hlimit⟩, hoffset⟩ := hexprs
  refine ⟨fun c hc => ?_, horders, hlimit, hoffset, hlock⟩
  have hcore : ∀ e ∈ c.exprs, e.Within lex p := fun e he =>
    hcores e (List.mem_flatMap.2 ⟨c, hc, he⟩)
  simp only [Core.exprs, List.forall_mem_append, Option.mem_toList] at hcore
  obtain ⟨⟨⟨⟨hprojections, hwheres⟩, hgroups⟩, hhaving⟩, hconditions⟩ := hcore
  refine ⟨hprojections, fun source hsource => Source.within_iff.2 ⟨?_, fun e he => ?_⟩, hwheres,
    hgroups, hhaving⟩
  · exact hsources source (List.mem_flatMap.2 ⟨c, hc, Option.mem_toList.2 hsource⟩)
  · exact hconditions e (List.mem_flatMap.2 ⟨source, Option.mem_toList.2 hsource, he⟩)

theorem Source.Within.map {f : σ → τ} (hf : ∀ q, p q → p' (f q)) : ∀ {s : Source σ},
    s.Within lex p → (s.map f).Within lex p'
  | .table _, h => h
  | .raw _, h => h
  | .join _ left right condition, ⟨hleft, hright, hcondition⟩ => by
    refine ⟨Within.map (s := left) hf hleft, Within.map (s := right) hf hright, fun e' he' => ?_⟩
    obtain ⟨e, he, rfl⟩ := Option.map_eq_some_iff.1 he'
    exact (hcondition e he).map hf

theorem Core.Within.map {f : σ → τ} (hf : ∀ q, p q → p' (f q)) {c : Core σ}
    (h : c.Within lex p) : (c.map f).Within lex p' := by
  have hlist : ∀ {es : List (Expr σ)}, (∀ e ∈ es, e.Within lex p) →
      ∀ e ∈ es.map (·.map f), e.Within lex p' := by
    intro es hes e' he'
    obtain ⟨e, he, rfl⟩ := List.mem_map.1 he'
    exact (hes e he).map hf
  constructor
  · exact hlist h.projections
  · intro s' hs'
    obtain ⟨s, hs, rfl⟩ := Option.map_eq_some_iff.1 hs'
    exact (h.source s hs).map hf
  · exact hlist h.wheres
  · exact hlist h.groups
  · intro e' he'
    obtain ⟨e, he, rfl⟩ := Option.map_eq_some_iff.1 he'
    exact (h.having e he).map hf

theorem SelectBody.Within.map {f : σ → τ} (hf : ∀ q, p q → p' (f q)) {s : SelectBody σ}
    (h : s.Within lex p) : (s.map f).Within lex p' := by
  have hoption : ∀ {e : Option (Expr σ)}, (∀ x ∈ e, x.Within lex p) →
      ∀ x ∈ e.map (·.map f), x.Within lex p' := by
    intro e he x' hx'
    obtain ⟨x, hx, rfl⟩ := Option.map_eq_some_iff.1 hx'
    exact (he x hx).map hf
  constructor
  · intro c' hc'
    obtain ⟨c, hc, rfl⟩ := List.mem_map.1 hc'
    exact (h.cores c hc).map hf
  · intro k' hk'
    obtain ⟨k, hk, rfl⟩ := List.mem_map.1 hk'
    exact (h.orders k hk).map hf
  · exact hoption h.limit
  · exact hoption h.offset
  · exact h.lock

/-- The key and the columns of the first table are within the lexicon. A raw source has none. -/
theorem Source.Within.baseTable : ∀ {s : Source σ}, s.Within lex p →
    ∀ c ∈ s.baseTable.keyColumn?.toList ++ s.baseTable.columnRefs, ∀ n ∈ c.path, lex.name n
  | .table _, h => h.columns
  | .join _ left _ _, h => Within.baseTable (s := left) h.1
  | .raw _, _ => fun c hc => by
    simp [Source.baseTable, TableRef.keyColumn?, TableRef.columnRefs] at hc

theorem Core.Within.baseColumn {c : Core σ} (h : c.Within lex p) {t : TableRef}
    (ht : c.baseTable? = some t) {column : ColumnRef}
    (hcolumn : column ∈ t.keyColumn?.toList ++ t.columnRefs) :
    (Expr.column column : Expr σ).Within lex p := by
  obtain ⟨s, hs, rfl⟩ := Option.map_eq_some_iff.1 ht
  exact Expr.within_of_leaf rfl ((h.source s hs).baseTable column hcolumn)

theorem Source.Within.correlated {s : Source σ} (h : s.Within lex p) :
    s.correlated.1.Within lex p := by
  unfold Source.correlated
  split
  · obtain ⟨hleft, hright, hcondition⟩ := h
    split
    · exact ⟨hleft, hright, hcondition⟩
    · exact ⟨hleft, hright, hcondition⟩
  · exact h

theorem Core.Within.correlated {c : Core σ} (h : c.Within lex p) :
    ({ c with source := c.source.map fun s => s.correlated.1 } : Core σ).Within lex p :=
  { h with
    source := fun s' hs' => by
      obtain ⟨s, hs, rfl⟩ := Option.map_eq_some_iff.1 hs'
      exact (h.source s hs).correlated }

end

/-! ## Queries -/

section

variable {σ : Type} {lex : Lexicon} {p : σ → Prop}

/-- The parts of the window are within the lexicon. -/
structure Window.Within (lex : Lexicon) (p : σ → Prop) (w : Window σ) : Prop where
  partition : ∀ e ∈ w.partition, e.Within lex p
  orders : ∀ k ∈ w.orders, k.expr.Within lex p

/-- The column and its name are within the lexicon. -/
def Column.Within (lex : Lexicon) (p : σ → Prop) : Column σ → Prop
  | .expr e => e.Within lex p
  | .ranked w name => w.Within lex p ∧ lex.name name

/-- What is selected from is within the lexicon, apart from the query of a derived table. -/
def Rows.Within (lex : Lexicon) (p : σ → Prop) : Rows σ → Prop
  | .source s hint => s.Within lex p ∧ ∀ text ∈ hint, lex.verbatim text
  | .derived _ name => lex.name name

theorem Rows.within_derived {q : σ} {name : String} (h : lex.name name) :
    ∀ rows ∈ some (Rows.derived q name), rows.Within lex p := by
  rintro _ ⟨⟩
  exact h

/-- The parts of one level of a query are within the lexicon. -/
structure QueryBody.Within (lex : Lexicon) (p : σ → Prop) (b : QueryBody σ) : Prop where
  top : ∀ e ∈ b.top, e.Within lex p
  columns : ∀ block ∈ b.columns, ∀ column ∈ block, column.Within lex p
  rows : ∀ rows ∈ b.rows, rows.Within lex p
  filters : ∀ e ∈ b.filters, e.Within lex p
  groups : ∀ e ∈ b.groups, e.Within lex p
  having : ∀ e ∈ b.having, e.Within lex p
  orders : ∀ k ∈ b.orders, k.expr.Within lex p

/-- The query and its derived tables are within the lexicon, and the queries after `IN` in all of
them satisfy `p`. -/
inductive Query.Within (lex : Lexicon) (p : Query → Prop) : Query → Prop
  | of {body : QueryBody Query} (own : body.Within lex p)
      (derived : ∀ q name, body.rows = some (.derived q name) → Query.Within lex p q) :
      Query.Within lex p (.of body)

theorem Query.Within.own {p : Query → Prop} {q : Query} (h : q.Within lex p) :
    q.body.Within lex p := by
  cases h with
  | of own _ => exact own

theorem Query.Within.derived {p : Query → Prop} {q r : Query} {name : String}
    (h : q.Within lex p) (hrows : q.body.rows = some (.derived r name)) : r.Within lex p := by
  cases h with
  | of _ derived => exact derived r name hrows

/-- A query around a derived table. -/
theorem Query.Within.around {p : Query → Prop} {body : QueryBody Query} {q : Query} {name : String}
    (hq : q.Within lex p) (hrows : body.rows = some (.derived q name)) (own : body.Within lex p) :
    (Query.of body).Within lex p := by
  refine .of own fun r n hr => ?_
  rw [hrows] at hr
  cases hr
  exact hq

end

end Transact
