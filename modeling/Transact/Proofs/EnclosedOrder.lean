import Transact.Proofs.Outcome
import Transact.Proofs.Plan.Within
import Transact.Proofs.Query

/-!
# Orders of enclosed queries

The server sorts a query in parentheses only together with a limit. `Query.Topped` says that a query
has a `TOP` if it has an order, and `Select.isBounded` tells from a select whether its query does.

* `Select.topped_iff`: the query of a select is topped exactly when the select is bounded.
* `Scope.topsDerived_core`: derived tables are always topped.
* `Query.Traced.encloses`: every query inside of a compiled one is a derived table, or the query of
  a subquery of the statement.
-/

set_option autoImplicit false

namespace Transact

/-! ## Orders and limits -/

/-- The query has a `TOP` if it has an order. -/
def Query.Topped (q : Query) : Prop := q.body.orders ≠ [] → q.body.top.isSome = true

theorem Query.topped_iff_of_ordered {q : Query} (h : q.body.orders ≠ []) :
    q.Topped ↔ q.body.top.isSome = true := ⟨fun ht => ht h, fun ht _ => ht⟩

theorem Query.topped_of_orders_eq_nil {q : Query} (h : q.body.orders = []) : q.Topped :=
  fun hne => absurd h hne

/-- The derived tables of the query are topped, and so are theirs. -/
inductive Query.TopsDerived : Query → Prop
  | of {q : Query} (topped : ∀ r name, q.body.rows = some (.derived r name) → r.Topped)
      (inner : ∀ r name, q.body.rows = some (.derived r name) → Query.TopsDerived r) :
      Query.TopsDerived q

theorem Query.TopsDerived.derived {q r : Query} {name : String} (h : q.TopsDerived)
    (hrows : q.body.rows = some (.derived r name)) : r.Topped ∧ r.TopsDerived := by
  cases h with
  | of topped inner => exact ⟨topped r name hrows, inner r name hrows⟩

/-- A query that draws on a source. -/
theorem Query.topsDerived_of_source {q : Query}
    (h : ∀ r name, q.body.rows ≠ some (.derived r name)) : q.TopsDerived :=
  .of (fun r name hr => absurd hr (h r name)) fun r name hr => absurd hr (h r name)

/-- A query around a derived table. -/
theorem Query.topsDerived_around {q r : Query} {name : String}
    (hrows : q.body.rows = some (.derived r name)) (ht : r.Topped) (hr : r.TopsDerived) :
    q.TopsDerived := by
  refine .of (fun r' name' h => ?_) fun r' name' h => ?_
  · rw [hrows] at h
    cases h
    exact ht
  · rw [hrows] at h
    cases h
    exact hr

/-- The select is sorted only together with a limit that is written. A page sorts its rows by their
number, and a limit that stands for none is not written there. -/
def Select.isBounded (options : Options) (s : Select) : Bool :=
  match s.strategy? options with
  | some .plain => s.body.orders.isEmpty || s.body.limit.isSome
  | some .paginated => s.body.boundedLimit?.isSome
  | some .distinctOrder => s.body.limit.isSome
  | _ => true

/-! ## One level -/

namespace Scope

variable {σ : Type} {sc : Scope σ} {s : SelectBody σ} {c : Core σ} {q : Query}

theorem isSome_expr? {e : Option (Expr σ)} {e' : Option (Expr Query)}
    (h : (sc.expr? e).result = .ok e') : e'.isSome = e.isSome := by
  cases e with
  | none =>
    obtain rfl := Except.ok.inj h
    rfl
  | some e =>
    obtain ⟨x, -, h⟩ := Trace.bind_eq_ok.1 h
    obtain rfl := Except.ok.inj h
    rfl

theorem keys_eq_nil {ks : List (SortKey σ)} {ks' : List (Key Query)}
    (h : (sc.keys ks).result = .ok ks') : ks' = [] ↔ ks = [] := by
  cases ks with
  | nil =>
    obtain rfl := Except.ok.inj h
    simp
  | cons k ks =>
    obtain ⟨e, -, h⟩ := Trace.bind_eq_ok.1 h
    obtain ⟨rest, -, h⟩ := Trace.bind_eq_ok.1 h
    obtain rfl := Except.ok.inj h
    simp

theorem distinctKeys_eq_nil {ks ks' : List (SortKey σ)}
    (h : (sc.distinctKeys ks).result = .ok ks') : ks' = [] ↔ ks = [] := by
  obtain ⟨labelled, ⟨rfl, -⟩, rfl⟩ := distinctKeys_eq_ok.1 h
  cases labelled with
  | nil => simp [firstOfEach]
  | cons x rest => simp [firstOfEach]

/-- A frame has no order yet, and draws on a source. -/
theorem frame_orders {groups : List (Expr σ)} {f : QueryBody Query}
    (h : (sc.frame s c groups).result = .ok f) :
    f.orders = [] ∧ ∀ q name, f.rows ≠ some (.derived q name) := by
  obtain ⟨rows, filters, groups', having, hrows, -, -, -, rfl⟩ := frame_eq_ok.1 h
  exact ⟨rfl, rows_ne_derived hrows⟩

theorem topped_plain_iff {sh : Shape} (h : (sc.plain sh s c).result = .ok q) :
    q.Topped ↔ s.orders = [] ∨ s.limit.isSome = true := by
  obtain ⟨top, columns, frame, orders, distinct, ps, -, htop, -, -, horders, rfl⟩ := plain_builds h
  have hempty : orders = [] ↔ s.orders = [] :=
    (keys_eq_nil horders).trans plainArrangement_orders_eq_nil
  rw [← hempty, ← isSome_expr? htop]
  show (orders ≠ [] → top.isSome = true) ↔ _
  by_cases ho : orders = [] <;> simp [ho]

theorem topped_paginated_iff [BEq σ] {sh : Shape} (h : (sc.paginated sh s c).result = .ok q) :
    q.Topped ↔ s.boundedLimit?.isSome = true := by
  obtain ⟨keys, top, offset, outer, ranking, window, columns, frame, -, htop, -, -, -, -, -, rfl⟩ :=
    paginated_builds h
  rw [← isSome_expr? htop]
  exact Query.topped_iff_of_ordered (List.cons_ne_nil _ _)

theorem topped_distinctOrder_iff (h : (sc.distinctOrder s c).result = .ok q) :
    q.Topped ↔ s.limit.isSome = true := by
  obtain ⟨columns, outer, rank, duplicate, frame, top, offset, -, -, -, -, -, htop, -, rfl⟩ :=
    distinctOrder_builds h
  rw [← isSome_expr? htop]
  cases offset with
  | none => exact Query.topped_iff_of_ordered (List.cons_ne_nil _ _)
  | some offset => exact Query.topped_iff_of_ordered (List.cons_ne_nil _ _)

theorem topped_count (h : (sc.count s c).result = .ok q) : q.Topped := by
  obtain ⟨top, offset, window, frame, orders, -, -, -, -, -, rfl⟩ := count_builds h
  exact Query.topped_of_orders_eq_nil rfl

/-- **Derived tables are topped**: those of pages and of distinct rows have no order, and that of a
count has the limit that makes it one. -/
theorem topsDerived_core [BEq σ] (h : (sc.core s c).result = .ok q) : q.TopsDerived := by
  have h := core_eq_ok h
  cases hstrategy : (Shape.of s c).strategy with
  | count =>
    rw [hstrategy] at h
    obtain ⟨top, offset, window, frame, orders, htop, -, hframe, -, -, rfl⟩ := count_builds h
    have hlimit : s.limit.isSome = true := by
      unfold Shape.strategy at hstrategy
      split at hstrategy
      · rename_i hcount
        simp only [Bool.and_eq_true] at hcount
        exact hcount.1.2
      · split at hstrategy
        · cases hstrategy
        · split at hstrategy <;> cases hstrategy
    have hsome : s.countLimit?.isSome = true := by
      unfold SelectBody.countLimit?
      cases hl : s.limit with
      | none => simp [hl] at hlimit
      | some limit => cases s.offset <;> rfl
    exact Query.topsDerived_around rfl (fun _ => (isSome_expr? htop).trans hsome)
      (Query.topsDerived_of_source (frame_orders hframe).2)
  | distinctOrder =>
    rw [hstrategy] at h
    obtain ⟨columns, outer, rank, duplicate, frame, top, offset, -, -, -, hframe, -, -, -, rfl⟩ :=
      distinctOrder_builds h
    obtain ⟨horders, hrows⟩ := frame_orders hframe
    have htopped : (rankedRows sc.names frame columns rank duplicate).Topped :=
      Query.topped_of_orders_eq_nil horders
    have hsource : (rankedRows sc.names frame columns rank duplicate).TopsDerived :=
      Query.topsDerived_of_source hrows
    cases offset with
    | none => exact Query.topsDerived_around rfl htopped hsource
    | some offset =>
      exact Query.topsDerived_around rfl (Query.topped_of_orders_eq_nil rfl)
        (Query.topsDerived_around rfl htopped hsource)
  | paginated =>
    rw [hstrategy] at h
    obtain ⟨keys, top, offset, outer, ranking, window, columns, frame, -, -, -, -, -, hframe, -,
      rfl⟩ := paginated_builds h
    obtain ⟨horders, hrows⟩ := frame_orders hframe
    exact Query.topsDerived_around rfl (Query.topped_of_orders_eq_nil horders)
      (Query.topsDerived_of_source hrows)
  | plain =>
    rw [hstrategy] at h
    obtain ⟨top, columns, frame, orders, distinct, ps, -, -, -, hframe, -, rfl⟩ := plain_builds h
    exact Query.topsDerived_of_source (frame_orders hframe).2

end Scope

/-! ## Selects -/

theorem Expr.beq_int_map {σ τ : Type} [BEq σ] [BEq τ] (f : σ → τ) (e : Expr σ) (i : Int64) :
    (e.map f == .int i) = (e == .int i) := by
  cases e <;> rfl

theorem SelectBody.isSome_boundedLimit?_map {σ τ : Type} [BEq σ] [BEq τ] (f : σ → τ)
    (s : SelectBody σ) : (s.map f).boundedLimit?.isSome = s.boundedLimit?.isSome := by
  unfold boundedLimit?
  show (Option.filter _ (s.limit.map (·.map f))).isSome = _
  cases s.limit with
  | none => rfl
  | some limit =>
    simp only [Option.map_some, Option.filter, Expr.beq_int_map]
    split <;> rfl

namespace Select

variable {options : Options} {s : Select} {q : Query}

/-- A select that compiles is compiled by its strategy. -/
theorem exists_core (h : (s.compile options).result = .ok q) :
    ∃ orders c, ((s.scope options).distinctKeys (s.level options).orders).result = .ok orders ∧
      s.strategy? options =
        some (Shape.of { s.level options with orders := orders } c).strategy ∧
      ((s.scope options).core { s.level options with orders := orders } c).result = .ok q := by
  rw [compile_eq] at h
  obtain ⟨orders, c, cores, horders, hcores, h⟩ := SelectBody.compile_eq_ok.1 h
  refine ⟨orders, c, horders, ?_, h⟩
  rw [strategy?, SelectBody.strategy?, hcores, horders]
  rfl

theorem topsDerived_compile (h : (s.compile options).result = .ok q) : q.TopsDerived := by
  obtain ⟨orders, c, -, -, h⟩ := exists_core h
  exact Scope.topsDerived_core h

/-- **The query of a select** is topped exactly when the select is bounded. -/
theorem topped_iff (h : (s.compile options).result = .ok q) :
    q.Topped ↔ s.isBounded options = true := by
  obtain ⟨orders, c, horders, hstrategy, h⟩ := exists_core h
  have hlimit : (s.level options).limit.isSome = s.body.limit.isSome := Option.isSome_map
  have horders : orders = [] ↔ s.body.orders = [] :=
    (Scope.distinctKeys_eq_nil horders).trans List.map_eq_nil_iff
  have h := Scope.core_eq_ok h
  unfold isBounded
  rw [hstrategy]
  cases hshape : (Shape.of { s.level options with orders := orders } c).strategy with
  | count =>
    rw [hshape] at h
    simp [Scope.topped_count h]
  | distinctOrder =>
    rw [hshape] at h
    rw [Scope.topped_distinctOrder_iff h, ← hlimit]
  | paginated =>
    rw [hshape] at h
    rw [Scope.topped_paginated_iff h,
      ← SelectBody.isSome_boundedLimit?_map (compiled options) s.body]
    rfl
  | plain =>
    rw [hshape] at h
    rw [Scope.topped_plain_iff h]
    simp [horders, hlimit]

end Select

/-! ## Where enclosed queries come from -/

namespace Expr

variable {σ : Type} {lex : Lexicon} {p : σ → Prop}

mutual

theorem Within.subqueries : ∀ {e : Expr σ}, e.Within lex p → ∀ q ∈ e.subqueries, p q
  | .column _, _, _, hq | .wildcard _, _, _, hq | .literal _, _, _, hq | .typed _ _, _, _, hq
  | .raw _, _, _, hq => by simp at hq
  | .aggregate _ args _, h, q, hq => Within.subqueriesList args (within_iff.1 h).2 q hq
  | .call _ args, h, q, hq => Within.subqueriesList args (within_iff.1 h).2 q hq
  | .alias e _, h, q, hq | .distinct e, h, q, hq | .not e, h, q, hq | .isNull e _, h, q, hq
  | .grouping e, h, q, hq | .caseSensitive e, h, q, hq =>
    Within.subqueries (e := e) (h.operand List.mem_cons_self) q hq
  | .binary l _ r, h, q, hq => by
    rcases List.mem_append.1 hq with hq | hq
    · exact Within.subqueries (e := l) (h.operand List.mem_cons_self) q hq
    · exact Within.subqueries (e := r) (h.operand (List.mem_cons_of_mem _ List.mem_cons_self)) q hq
  | .inList e list _, h, q, hq => by
    rcases List.mem_append.1 hq with hq | hq
    · exact Within.subqueries (e := e) (h.operand List.mem_cons_self) q hq
    · exact Within.subqueriesList list
        (fun x hx => h.operand (List.mem_cons_of_mem _ hx)) q hq
  | .inSubquery e _ _, h, q, hq => by
    rcases List.mem_append.1 hq with hq | hq
    · exact Within.subqueries (e := e) (h.operand List.mem_cons_self) q hq
    · rw [List.mem_singleton.1 hq]
      exact h.fits

theorem Within.subqueriesList : ∀ es : List (Expr σ), (∀ e ∈ es, e.Within lex p) →
    ∀ q ∈ Expr.subqueriesList es, p q
  | [], _, _, hq => by simp at hq
  | e :: es, h, q, hq => by
    rcases List.mem_append.1 hq with hq | hq
    · exact Within.subqueries (e := e) (h e List.mem_cons_self) q hq
    · exact Within.subqueriesList es (fun x hx => h x (List.mem_cons_of_mem _ hx)) q hq

end

end Expr

/-- The lexicon that everything is within. -/
def Lexicon.all : Lexicon := ⟨fun _ => True, fun _ => True, fun _ => True, fun _ => True, True⟩

theorem Lexicon.serves_all {σ : Type} (sc : Scope σ) : Lexicon.all.Serves sc :=
  ⟨fun _ _ => ⟨trivial, fun _ _ => trivial⟩, trivial, fun _ => trivial, trivial, trivial⟩

section

variable {σ : Type} {p : σ → Prop}

theorem Expr.within_all {e : Expr σ} (h : ∀ q ∈ e.subqueries, p q) : e.Within .all p := by
  intro x hx
  have hsub : ∀ q ∈ x.subqueries, p q := fun q hq => h q (subqueries_of_occurs hx hq)
  cases x
  case inSubquery => exact hsub _ (List.mem_append_right _ (List.mem_singleton_self _))
  case column | wildcard => exact fun _ _ => trivial
  all_goals trivial

theorem TableRef.within_all (t : TableRef) : t.Within .all :=
  ⟨fun _ _ => trivial, fun _ _ _ _ => trivial⟩

theorem SelectBody.within_all {s : SelectBody σ} (h : ∀ e ∈ s.exprs, ∀ q ∈ e.subqueries, p q) :
    s.Within .all p :=
  within_of_exprs (fun e he => Expr.within_all (h e he))
    (fun _ _ => ⟨fun t _ => t.within_all, fun _ => trivial⟩) fun _ _ => trivial

end

theorem Source.Within.usedConditions {σ : Type} {lex : Lexicon} {p : σ → Prop} {e : Expr σ} :
    ∀ {s : Source σ}, s.Within lex p → e ∈ s.usedConditions → e.Within lex p
  | .table _, _, he => by simp [Source.usedConditions] at he
  | .raw _, _, he => by simp [Source.usedConditions] at he
  | .join _ left right _, ⟨hleft, hright, hcondition⟩, he => by
    rw [Source.usedConditions, List.mem_append, List.mem_append] at he
    rcases he with (he | he) | he
    · exact Within.usedConditions (s := left) hleft he
    · exact Within.usedConditions (s := right) hright he
    · split at he
      · simp at he
      · exact hcondition e (Option.mem_toList.1 he)

theorem QueryBody.Within.exprs {σ : Type} {lex : Lexicon} {p : σ → Prop} {b : QueryBody σ}
    (h : b.Within lex p) : ∀ e ∈ b.exprs, e.Within lex p := by
  intro e he
  simp only [QueryBody.exprs, List.mem_append] at he
  rcases he with (((((he | he) | he) | he) | he) | he) | he
  · exact h.top e (Option.mem_toList.1 he)
  · obtain ⟨column, hcolumn, he⟩ := List.mem_flatMap.1 he
    obtain ⟨block, hblock, hcolumn⟩ := List.mem_flatten.1 hcolumn
    have hwithin := h.columns block hblock column hcolumn
    cases column with
    | expr e' =>
      rw [List.mem_singleton.1 he]
      exact hwithin
    | ranked w name =>
      rcases List.mem_append.1 he with he | he
      · exact hwithin.1.partition e he
      · obtain ⟨k, hk, rfl⟩ := List.mem_map.1 he
        exact hwithin.1.orders k hk
  · obtain ⟨rows, hrows, he⟩ := List.mem_flatMap.1 he
    have hwithin := h.rows rows (Option.mem_toList.1 hrows)
    cases rows with
    | source s hint => exact hwithin.1.usedConditions he
    | derived q name => simp [Rows.exprs] at he
  · exact h.filters e he
  · exact h.groups e he
  · exact h.having e (Option.mem_toList.1 he)
  · obtain ⟨k, hk, rfl⟩ := List.mem_map.1 he
    exact h.orders k hk

/-! ## Statements -/

/-- The expressions that a compiled update is written with. -/
def UpdateQuery.exprs (u : UpdateQuery) : List (Expr Query) :=
  u.top.toList ++ u.values.map Prod.snd ++ u.filters

/-- The command has the query inside, at any depth. -/
def Command.Encloses : Command → Query → Prop
  | .query q, r => q.Encloses r
  | .update u, r => ∃ e ∈ u.exprs, ∃ q ∈ e.subqueries, Relation.ReflTransGen Query.Holds q r

section

variable {options : Options} {P : Select → Prop}

/-- The derived tables of the query are topped, and its subqueries are those of selects with `P`. -/
structure Query.Traced (options : Options) (P : Select → Prop) (q : Query) : Prop where
  within : q.Within .all fun r => ∃ s, P s ∧ (s.compile options).result = .ok r
  derived : q.TopsDerived

theorem Query.traced_compile {s : Select} {q : Query} (hs : ∀ sub, s.Holds sub → P sub)
    (h : (s.compile options).result = .ok q) : q.Traced options P :=
  ⟨Select.within_compile (Lexicon.serves_all _)
      (SelectBody.within_all fun e he sub hsub => hs sub ⟨e, he, hsub⟩) h,
    Select.topsDerived_compile h⟩

/-- **One step inside**: a derived table is topped, and any other query is that of a select
with `P`. -/
theorem Query.Traced.holds (hP : ∀ s sub, P s → s.Holds sub → P sub) {q r : Query}
    (hq : q.Traced options P) (h : q.Holds r) :
    r.Traced options P ∧ (r.Topped ∨ ∃ s, P s ∧ (s.compile options).result = .ok r) := by
  rcases h with ⟨name, hrows⟩ | ⟨e, he, hr⟩
  · obtain ⟨htopped, hderived⟩ := hq.derived.derived hrows
    exact ⟨⟨hq.within.derived hrows, hderived⟩, .inl htopped⟩
  · obtain ⟨s, hs, hcompile⟩ := (hq.within.own.exprs e he).subqueries r hr
    exact ⟨traced_compile (fun sub => hP s sub hs) hcompile, .inr ⟨s, hs, hcompile⟩⟩

/-- **Any number of steps inside.** -/
theorem Query.Traced.encloses (hP : ∀ s sub, P s → s.Holds sub → P sub) {q r : Query}
    (hq : q.Traced options P) (h : q.Encloses r) :
    r.Traced options P ∧ (r.Topped ∨ ∃ s, P s ∧ (s.compile options).result = .ok r) := by
  induction h with
  | single h => exact hq.holds hP h
  | tail _ h ih => exact ih.1.holds hP h

end

/-! ## Updates -/

namespace Update

variable {options : Options} {u : Update} {key : ColumnRef}

theorem isSome_limit_guarded (h : u.orders ≠ []) : u.guarded.limit.isSome = true := by
  rw [limit_guarded_of_restricted (isRestricted_iff.2 (.inl h))]
  rfl

/-- The select of the keys is sorted only together with its limit. -/
theorem topped_keySelect {r : Query}
    (h : ((u.guarded.keySelect key).compile options).result = .ok r) : r.Topped := by
  obtain ⟨orders, horders, -, h⟩ := Select.compile_eq_ok rfl h
  -- one column without a mark and no offset: a plain select
  have hplain := Scope.core_eq_ok h
  rw [show (Shape.of _ _).strategy = .plain from rfl] at hplain
  refine (Scope.topped_plain_iff hplain).2 ?_
  by_cases hnone : u.orders = []
  · left
    refine (Scope.distinctKeys_eq_nil horders).2 ?_
    show List.map _ u.guarded.orders = []
    rw [orders_guarded, hnone, List.map_nil]
  · right
    show (Option.map _ u.guarded.limit).isSome = true
    rw [Option.isSome_map]
    exact isSome_limit_guarded hnone

/-- The subqueries of the select of the keys are subqueries of the update. -/
theorem nests_of_keySelect_holds {sub : Select} (h : (u.guarded.keySelect key).Holds sub) :
    (Statement.update u).Nests sub := by
  obtain ⟨e, he, hsub⟩ := h
  rcases mem_exprs_keySelect he with rfl | he | rfl
  · simp at hsub
  · exact ⟨e, he, sub, hsub, .refl⟩
  · simp [Expr.int] at hsub

theorem within_all {p : Select → Prop} (h : ∀ e ∈ u.exprs, ∀ q ∈ e.subqueries, p q)
    (hkey : ∀ key ∈ u.keyColumn?, p (u.guarded.keySelect key)) : u.Within .all p :=
  within_of_exprs u.table.within_all (fun e he => Expr.within_all (h e he))
    (fun _ _ _ _ => trivial) hkey

end Update

theorem UpdateQuery.Within.exprs {lex : Lexicon} {p : Query → Prop} {u : UpdateQuery}
    (h : u.Within lex p) : ∀ e ∈ u.exprs, e.Within lex p := by
  intro e he
  simp only [UpdateQuery.exprs, List.mem_append] at he
  rcases he with (he | he) | he
  · exact h.top e (Option.mem_toList.1 he)
  · obtain ⟨v, hv, rfl⟩ := List.mem_map.1 he
    exact (h.values v hv).2
  · exact h.filters e he

/-- What a compiled update is written with is a part of its text. -/
theorem UpdateQuery.has_expr (collation : String) {u : UpdateQuery} {e : Expr Query}
    (h : e ∈ u.exprs) : Text.Has (u.sql collation) (e.querySql collation) := by
  unfold UpdateQuery.sql
  simp only [UpdateQuery.exprs, List.mem_append] at h
  rcases h with (h | h) | h
  · have htop : "TOP (" ++ e.querySql collation ++ ")" ∈
        topClause collation (u.top.map (·.map (Query.sql collation))) := by
      rw [Option.mem_toList.1 h]
      exact List.mem_singleton_self _
    refine (Text.Has.join (List.mem_append_left _ (List.mem_append_left _
      (List.mem_append_right _ htop)))).trans (((Text.Has.refl _).right _).left _)
  · obtain ⟨v, hv, rfl⟩ := List.mem_map.1 h
    refine (Text.Has.join (List.mem_append_left _ (List.mem_append_right _
      (List.mem_cons_of_mem _ List.mem_cons_self)))).trans
        (((Text.Has.join (List.mem_map_of_mem hv)).trans ?_).right _)
    exact (Text.Has.refl _).right _
  · obtain ⟨text, htext, hhas⟩ := exists_clause "WHERE" " AND "
      (List.mem_map_of_mem (f := Expr.querySql collation) h)
    exact (Text.Has.join (List.mem_append_right _ htext)).trans hhas

/-! ## Enclosed queries -/

theorem Command.has_sql_of_encloses (collation : String) {command : Command} {r : Query}
    (h : command.Encloses r) :
    Text.Has (command.sql collation) ("(" ++ r.sql collation ++ ")") := by
  cases command with
  | query q => exact Query.has_sql_of_encloses collation h
  | update u =>
    obtain ⟨e, he, q, hq, hr⟩ := h
    have hsql := (UpdateQuery.has_expr collation he).trans (Expr.has_querySql collation hq)
    rcases Relation.reflTransGen_iff_eq_or_transGen.1 hr with rfl | hr
    · exact hsql
    · exact hsql.trans (((Query.has_sql_of_encloses collation hr).right _).left _)

/-- A query inside of a compiled statement is topped, or it is that of a nested select. -/
theorem Statement.topped_or_nested {options : Options} {st : Statement} {command : Command}
    {r : Query} (h : (st.compile options).result = .ok command) (hr : command.Encloses r) :
    r.Topped ∨ ∃ sub, st.Nests sub ∧ (sub.compile options).result = .ok r := by
  cases st with
  | select s =>
    obtain ⟨q, hq, h⟩ := Trace.bind_eq_ok.1 h
    obtain rfl := Except.ok.inj h
    have htraced : q.Traced options (Statement.select s).Nests :=
      Query.traced_compile (fun sub hsub => .single hsub) hq
    exact (htraced.encloses (fun _ _ hs hsub => .tail hs hsub) hr).2
  | update u =>
    obtain ⟨uq, huq, h⟩ := Trace.bind_eq_ok.1 h
    obtain rfl := Except.ok.inj h
    obtain ⟨e, he, q, hq, hr⟩ := hr
    -- the select of the keys is not part of the statement
    let P : Select → Prop := fun sub =>
      (Statement.update u).Nests sub ∨ ∃ key, sub = u.guarded.keySelect key
    have hP : ∀ s sub, P s → s.Holds sub → P sub := by
      rintro s sub (⟨e, he, q, hq, hs⟩ | ⟨key, rfl⟩) hsub
      · exact .inl ⟨e, he, q, hq, hs.tail hsub⟩
      · exact .inl (Update.nests_of_keySelect_holds hsub)
    have hwithin := Update.within_compile (p := P) (fun _ => trivial)
      (Update.within_all (fun e he q hq => .inl ⟨e, he, q, hq, .refl⟩)
        fun key _ => .inr ⟨key, rfl⟩) huq
    obtain ⟨s, hs, hcompile⟩ := (hwithin.exprs e he).subqueries q hq
    have hr : r.Topped ∨ ∃ s, P s ∧ (s.compile options).result = .ok r := by
      rcases Relation.reflTransGen_iff_eq_or_transGen.1 hr with rfl | hr
      · exact .inr ⟨s, hs, hcompile⟩
      · exact ((Query.traced_compile (fun sub => hP s sub hs) hcompile).encloses hP hr).2
    rcases hr with hr | ⟨sub, hsub | ⟨key, rfl⟩, hcompile⟩
    · exact .inl hr
    · exact .inr ⟨sub, hsub, hcompile⟩
    · exact .inl (Update.topped_keySelect hcompile)

/-- **Every query in parentheses** has a `TOP` with its order, unless it is that of a nested select
which is not bounded. -/
theorem Statement.enclosed_topped_iff {options : Options} {st : Statement} {command : Command}
    {r : Query} (h : (st.compile options).result = .ok command) (hr : command.Encloses r) :
    ∃ text, Statement.sql options st = .ok text ∧
      Text.Has text ("(" ++ r.sql options.collation ++ ")") ∧
      (r.Topped ↔ ∀ sub, st.Nests sub → (sub.compile options).result = .ok r →
        sub.isBounded options = true) := by
  have hsql : Statement.sql options st = .ok (command.sql options.collation) := by
    rw [Statement.sql, Statement.trace, Trace.bind_ok h]
    rfl
  refine ⟨_, hsql, Command.has_sql_of_encloses _ hr, fun ht sub _ hsub => ?_, fun hbounded => ?_⟩
  · exact (Select.topped_iff hsub).1 ht
  · rcases Statement.topped_or_nested h hr with ht | ⟨sub, hnests, hsub⟩
    · exact ht
    · exact (Select.topped_iff hsub).2 (hbounded sub hnests hsub)

theorem Query.holds_of_filter {q r : Query} {e : Expr Query} (he : e ∈ q.body.filters)
    (hr : r ∈ e.subqueries) : q.Holds r := by
  refine .inr ⟨e, ?_, hr⟩
  simp only [QueryBody.exprs, List.mem_append]
  exact .inl (.inl (.inl (.inr he)))

/-- Rows whose column is among the values on a page. -/
def pageInside : Select :=
  .of
    { cores :=
        [{ projections := [.star]
           source := some (.table { name := "t" })
           wheres :=
             [.inSubquery (.named "a")
               (.of
                 { cores :=
                     [{ projections := [.named "b"], source := some (.table { name := "u" }) }]
                   orders := [(Expr.named "b").asc]
                   limit := some (.int 3)
                   offset := some (.int 1) })
               false] }] }

/-- The query of the values on the page. -/
def pageValues : Query :=
  .of
    { top := some (.int 3)
      columns := [[.expr (.allOf "__rnt")]]
      rows := some (.derived
        (.of
          { columns :=
              [[.ranked ⟨.rowNumber, [], [⟨.named "b", some .asc⟩]⟩ "__rn"],
                [.expr (.named "b")]]
            rows := some (.source (.table { name := "u" }) none) })
        "__rnt")
      filters := [.binary (.qualified "__rnt" "__rn") .gt (.grouping (.int 1))]
      orders := [⟨.qualified "__rnt" "__rn", some .asc⟩] }

/-- The query of the rows. -/
def pageInsideQuery : Query :=
  .of
    { columns := [[.expr .star]]
      rows := some (.source (.table { name := "t" }) none)
      filters := [.inSubquery (.named "a") pageValues false] }

/-- The page is sorted, and it has the limit with its order. -/
theorem enclosed_topped_pageInside :
    ((Statement.select pageInside).compile {}).result = .ok (.query pageInsideQuery) ∧
      (Command.query pageInsideQuery).Encloses pageValues ∧ pageValues.body.orders ≠ [] ∧
      ∃ text, Statement.sql {} (.select pageInside) = .ok text ∧
        Text.Has text ("(" ++ pageValues.sql "Latin1_General_CS_AS_WS" ++ ")") ∧
        (pageValues.Topped ↔ ∀ sub, (Statement.select pageInside).Nests sub →
          (sub.compile {}).result = .ok pageValues → sub.isBounded {} = true) := by
  have hcompile : ((Statement.select pageInside).compile {}).result =
      .ok (.query pageInsideQuery) := rfl
  have hencloses : (Command.query pageInsideQuery).Encloses pageValues :=
    .single (Query.holds_of_filter (e := .inSubquery (.named "a") pageValues false)
      List.mem_cons_self (List.mem_append_right _ List.mem_cons_self))
  exact ⟨hcompile, hencloses, List.cons_ne_nil _ _,
    Statement.enclosed_topped_iff hcompile hencloses⟩

/-- Rows whose column is among sorted values, without a limit. -/
def orderedInside : Select :=
  .of
    { cores :=
        [{ projections := [.star]
           source := some (.table { name := "t" })
           wheres :=
             [.inSubquery (.named "a")
               (.of
                 { cores :=
                     [{ projections := [.named "b"], source := some (.table { name := "u" }) }]
                   orders := [(Expr.named "b").asc] })
               false] }] }

/-- The query of the sorted values. -/
def orderedValues : Query :=
  .of
    { columns := [[.expr (.named "b")]]
      rows := some (.source (.table { name := "u" }) none)
      orders := [⟨.named "b", some .asc⟩] }

/-- **Sorted values in parentheses** have no `TOP` when the select has no limit. -/
theorem not_topped_orderedInside :
    Statement.sql {} (.select orderedInside) =
        .ok "SELECT * FROM [t] WHERE [a] IN (SELECT [b] FROM [u] ORDER BY [b] ASC)" ∧
      ∃ command, ((Statement.select orderedInside).compile {}).result = .ok command ∧
        command.Encloses orderedValues ∧ ¬ orderedValues.Topped := by
  refine ⟨by decide +kernel, .query (.of
    { columns := [[.expr .star]]
      rows := some (.source (.table { name := "t" }) none)
      filters := [.inSubquery (.named "a") orderedValues false] }), rfl, ?_, ?_⟩
  · exact .single (Query.holds_of_filter (e := .inSubquery (.named "a") orderedValues false)
      List.mem_cons_self (List.mem_append_right _ List.mem_cons_self))
  · intro h
    exact absurd (h (List.cons_ne_nil _ _)) (by decide)

end Transact
