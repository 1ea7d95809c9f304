import Transact.Proofs.Compile
import Transact.Proofs.Plan.Fresh
import Transact.Proofs.Subquery

/-!
# The names of the compiler are nobody else's

What the compiler introduces must not capture what the statement means. `Expr.Occurs` says where a
name can stand: at any depth of an expression, but not inside a subquery, which has names of its
own.

* `Expr.names_subset_of_occurs`: the names of an expression include those of all that occurs in it.
* `SelectBody.mem_names_of_visible`, `SelectBody.mem_names_of_table`: a level uses the names in its
  visible expressions and of its tables.
* `Select.names_hygienic`: the names of the compiler are different from all of them and from each
  other.
-/

set_option autoImplicit false

namespace Transact

/-! ## What occurs in an expression -/

namespace Expr

variable {σ τ : Type}

/-- The expressions that an expression is applied to. A subquery is none of them. -/
def operands : Expr σ → List (Expr σ)
  | .column _ => []
  | .wildcard _ => []
  | .literal _ => []
  | .typed _ _ => []
  | .aggregate _ args _ => args
  | .call _ args => args
  | .alias e _ => [e]
  | .distinct e => [e]
  | .binary l _ r => [l, r]
  | .not e => [e]
  | .isNull e _ => [e]
  | .inList e list _ => e :: list
  | .inSubquery e _ _ => [e]
  | .grouping e => [e]
  | .caseSensitive e => [e]
  | .raw _ => []

/-- The expression `x` occurs in another one, at any depth and outside of its subqueries. -/
inductive Occurs (x : Expr σ) : Expr σ → Prop
  | self : Occurs x x
  | operand {e operand : Expr σ} (hmem : operand ∈ e.operands) (h : Occurs x operand) : Occurs x e

theorem mem_names_of_operand {n : String} {operand : Expr σ} (hn : n ∈ operand.names) :
    ∀ e : Expr σ, operand ∈ e.operands → n ∈ e.names
  | .column _, h | .wildcard _, h | .literal _, h | .typed _ _, h | .raw _, h => by cases h
  | .aggregate _ args _, h | .call _ args, h => by
    rw [names]
    exact mem_namesList h hn
  | .alias e _, h => by
    rw [← List.mem_singleton.1 h, names]
    exact List.mem_cons_of_mem _ hn
  | .distinct e, h | .not e, h | .isNull e _, h | .grouping e, h | .inSubquery e _ _, h
  | .caseSensitive e, h => by
    rw [names, ← List.mem_singleton.1 h]
    exact hn
  | .binary l _ r, h => by
    rw [names, List.mem_append]
    rcases List.mem_cons.1 h with rfl | h
    · exact .inl hn
    · rw [← List.mem_singleton.1 h]
      exact .inr hn
  | .inList e list _, h => by
    rw [names, List.mem_append]
    rcases List.mem_cons.1 h with rfl | h
    · exact .inl hn
    · exact .inr (mem_namesList h hn)

/-- **The names of an expression** include those of all that occurs in it. -/
theorem names_subset_of_occurs {x e : Expr σ} (h : Occurs x e) : x.names ⊆ e.names := by
  induction h with
  | self => exact List.Subset.refl _
  | operand hmem _ ih => exact fun _ hn => mem_names_of_operand (ih hn) _ hmem

-- subqueries have names of their own, so it does not matter what they are
mutual

theorem names_map (f : σ → τ) : ∀ e : Expr σ, (e.map f).names = e.names
  | .column _ | .wildcard _ | .literal _ | .typed _ _ | .raw _ => by simp [map, names]
  | .aggregate _ args _ | .call _ args => by simp [map, names, namesList_map f args]
  | .alias e _ | .distinct e | .not e | .isNull e _ | .grouping e | .caseSensitive e
  | .inSubquery e _ _ => by simp [map, names, names_map f e]
  | .binary l _ r => by simp [map, names, names_map f l, names_map f r]
  | .inList e list _ => by simp [map, names, names_map f e, namesList_map f list]

theorem namesList_map (f : σ → τ) : ∀ es : List (Expr σ), namesList (mapList f es) = namesList es
  | [] => rfl
  | e :: es => by simp [mapList, namesList, names_map f e, namesList_map f es]

end

end Expr

/-! ## What is visible in a level -/

section

variable {σ τ : Type}

theorem Source.names_map (f : σ → τ) : ∀ s : Source σ, (s.map f).names = s.names
  | .table _ | .raw _ => by simp [map, names]
  | .join _ left right condition => by
    cases condition <;>
      simp [map, names, names_map f left, names_map f right, Expr.namesList, Expr.names_map]

theorem SelectBody.names_map (f : σ → τ) (s : SelectBody σ) : (s.map f).names = s.names := by
  have hoption : ∀ e : Option (Expr σ),
      Expr.namesList (e.map (·.map f)).toList = Expr.namesList e.toList := by
    intro e
    cases e <;> simp [Expr.namesList, Expr.names_map]
  have hcore : ∀ c : Core σ, (c.map f).names = c.names := by
    intro c
    simp only [Core.names, Core.map, ← Expr.mapList_eq, Expr.namesList_map, hoption]
    cases c.source <;> simp [Source.names_map]
  unfold names map
  cases s.cores <;> simp [hcore, List.flatMap_map, SortKey.map, Expr.names_map]

/-- The expressions of a level that its query is written from: those of its first core and its
order. -/
def SelectBody.visible (s : SelectBody σ) : List (Expr σ) :=
  s.cores.head?.toList.flatMap Core.exprs ++ s.orders.map (·.expr)

/-- The tables of the first core. -/
def SelectBody.visibleTables (s : SelectBody σ) : List TableRef :=
  s.cores.head?.toList.flatMap fun c => c.source.toList.flatMap Source.tables

theorem Source.mem_names_of_condition {e : Expr σ} {n : String} (hn : n ∈ e.names) :
    ∀ {s : Source σ}, e ∈ s.conditions → n ∈ s.names
  | .join _ left right condition, he => by
    rw [conditions, List.mem_append, List.mem_append] at he
    rw [names, List.mem_append, List.mem_append]
    rcases he with (he | he) | he
    · exact .inl (.inl (mem_names_of_condition hn he))
    · exact .inl (.inr (mem_names_of_condition hn he))
    · exact .inr (Expr.mem_namesList he hn)

theorem Source.mem_names_of_table {t : TableRef} {n : String}
    (hn : n ∈ t.name :: t.aliasName.toList) : ∀ {s : Source σ}, t ∈ s.tables → n ∈ s.names
  | .table _, ht => by
    obtain rfl := List.mem_singleton.1 ht
    exact hn
  | .join _ left right condition, ht => by
    rw [names, List.mem_append, List.mem_append]
    rcases List.mem_append.1 ht with ht | ht
    · exact .inl (.inl (mem_names_of_table hn ht))
    · exact .inl (.inr (mem_names_of_table hn ht))

variable {s : SelectBody σ}

/-- **A level uses** the names in its visible expressions. -/
theorem SelectBody.mem_names_of_visible {e : Expr σ} {n : String} (he : e ∈ s.visible)
    (hn : n ∈ e.names) : n ∈ s.names := by
  rw [visible, List.mem_append] at he
  rw [names, List.mem_append]
  rcases he with he | he
  · obtain ⟨c, hc, he⟩ := List.mem_flatMap.1 he
    refine .inl (List.mem_flatMap.2 ⟨c, hc, ?_⟩)
    simp only [Core.exprs, Core.names, List.mem_append, List.mem_flatMap] at he ⊢
    rcases he with (((he | he) | he) | he) | ⟨source, hsource, he⟩
    · exact .inl (.inl (.inl (.inl (Expr.mem_namesList he hn))))
    · exact .inl (.inl (.inl (.inr (Expr.mem_namesList he hn))))
    · exact .inl (.inl (.inr (Expr.mem_namesList he hn)))
    · exact .inl (.inr (Expr.mem_namesList he hn))
    · exact .inr ⟨source, hsource, Source.mem_names_of_condition hn he⟩
  · obtain ⟨k, hk, rfl⟩ := List.mem_map.1 he
    exact .inr (List.mem_flatMap.2 ⟨k, hk, hn⟩)

/-- **A level uses** the names and aliases of its tables. -/
theorem SelectBody.mem_names_of_table {t : TableRef} {n : String} (ht : t ∈ s.visibleTables)
    (hn : n ∈ t.name :: t.aliasName.toList) : n ∈ s.names := by
  obtain ⟨c, hc, ht⟩ := List.mem_flatMap.1 ht
  obtain ⟨source, hsource, ht⟩ := List.mem_flatMap.1 ht
  refine List.mem_append_left _ (List.mem_flatMap.2 ⟨c, hc, ?_⟩)
  exact List.mem_append_right _
    (List.mem_flatMap.2 ⟨source, hsource, Source.mem_names_of_table hn ht⟩)

end

/-! ## Hygiene -/

/-- **The names of the compiler** are different from each other, and from every column, table and
alias that occurs in the visible part of the select, whatever the case of the letters. -/
theorem Select.names_hygienic (options : Options) (s : Select) :
    ((s.scope options).names.toList.map Text.lower).Nodup ∧
      ∀ name ∈ (s.scope options).names.toList,
        (∀ e ∈ s.body.visible,
          (∀ c : ColumnRef, Expr.Occurs (.column c) e →
            ∀ used ∈ c.name :: c.table.toList, Text.lower name ≠ Text.lower used) ∧
          ∀ (x : Expr Select) (used : String), Expr.Occurs (.alias x used) e →
            Text.lower name ≠ Text.lower used) ∧
        ∀ t ∈ s.body.visibleTables, ∀ used ∈ t.name :: t.aliasName.toList,
          Text.lower name ≠ Text.lower used := by
  have hnames : (s.scope options).names = .avoiding s.body.names := by
    rw [names_scope, level, SelectBody.names_map]
  rw [hnames]
  refine ⟨SyntheticNames.nodup_avoiding _, fun name hname => ⟨fun e he => ⟨?_, ?_⟩, ?_⟩⟩
  · intro c hc used hused
    refine SyntheticNames.lower_ne_of_mem_avoiding hname (SelectBody.mem_names_of_visible he ?_)
    exact Expr.names_subset_of_occurs hc (by rwa [Expr.names])
  · intro x used hx
    refine SyntheticNames.lower_ne_of_mem_avoiding hname (SelectBody.mem_names_of_visible he ?_)
    exact Expr.names_subset_of_occurs hx (by rw [Expr.names]; exact List.mem_cons_self)
  · intro t ht used hused
    exact SyntheticNames.lower_ne_of_mem_avoiding hname (SelectBody.mem_names_of_table ht hused)

/-- A select that has taken the names of the compiler: of a row's number inside a condition and of
the counted column as an alias. -/
def squatter : Select :=
  .of
    { cores :=
        [{ projections := [.distinct (.alias (.named "n") "COUNT")]
           source := some (.table { name := "t", aliasName := some "__RNT" })
           wheres := [.not (.isNull (.call "F" [.qualified "__RNT" "__Rn"]) false)] }] }

theorem names_hygienic_squatter :
    (squatter.scope {}).names.rowNumber = "__rn_1" ∧
      Text.lower (squatter.scope {}).names.rowNumber ≠ Text.lower "__Rn" ∧
      Text.lower (squatter.scope {}).names.numbered ≠ Text.lower "__RNT" ∧
      Text.lower (squatter.scope {}).names.count ≠ Text.lower "COUNT" := by
  obtain ⟨-, h⟩ := Select.names_hygienic {} squatter
  have hcolumn : Expr.Occurs (.qualified "__RNT" "__Rn")
      (Expr.not (.isNull (.call "F" [.qualified "__RNT" "__Rn"]) false) : Expr Select) :=
    .operand List.mem_cons_self (.operand List.mem_cons_self
      (.operand List.mem_cons_self .self))
  refine ⟨by decide, ?_, ?_, ?_⟩
  · exact ((h _ List.mem_cons_self).1 _ (List.mem_cons_of_mem _ List.mem_cons_self)).1 _ hcolumn _
      List.mem_cons_self
  · exact (h _ (List.mem_cons_of_mem _ List.mem_cons_self)).2 _ List.mem_cons_self _
      (List.mem_cons_of_mem _ List.mem_cons_self)
  · exact ((h _ (by simp [SyntheticNames.toList])).1 _ List.mem_cons_self).2 _ _
      (.operand List.mem_cons_self .self)

end Transact
