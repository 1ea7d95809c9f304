import Transact.Proofs.Composition

/-!
# Compiled subqueries keep the select

A level is compiled over subqueries that come with their queries. What a level says is not lost in
this: `Select.source_compiled` gives back the select, and comparing expressions or changing their
names comes to the same before and after (`Expr.sameWith_map`, `Expr.rename_map`).
-/

set_option autoImplicit false

namespace Transact

variable {σ τ : Type}

/-! ## Expressions -/

namespace Expr

mutual

theorem map_self : ∀ e : Expr σ, e.map (fun q => q) = e
  | .column _ | .wildcard _ | .literal _ | .typed _ _ | .raw _ => rfl
  | .aggregate _ args _ | .call _ args => by rw [map, mapList_self args]
  | .alias e _ | .distinct e | .not e | .isNull e _ | .grouping e | .caseSensitive e
  | .inSubquery e _ _ => by rw [map, map_self e]
  | .binary l _ r => by rw [map, map_self l, map_self r]
  | .inList e list _ => by rw [map, map_self e, mapList_self list]

theorem mapList_self : ∀ es : List (Expr σ), mapList (fun q => q) es = es
  | [] => rfl
  | e :: es => by rw [mapList, map_self e, mapList_self es]

end

theorem unaliased_map (f : σ → τ) : ∀ e : Expr σ, (e.map f).unaliased = e.unaliased.map f
  | .alias e _ => unaliased_map f e
  | .column _ | .wildcard _ | .literal _ | .typed _ _ | .aggregate _ _ _ | .call _ _
  | .distinct _ | .binary _ _ _ | .not _ | .isNull _ _ | .inList _ _ _ | .inSubquery _ _ _
  | .grouping _ | .caseSensitive _ | .raw _ => rfl

theorem unmarked_map (f : σ → τ) : ∀ p : Expr σ, (p.map f).unmarked = p.unmarked.map f
  | .distinct e => unmarked_map f e
  | .alias e name => by rw [map, unmarked, unmarked, map, unmarked_map f e]
  | .column _ | .wildcard _ | .literal _ | .typed _ _ | .aggregate _ _ _ | .call _ _
  | .binary _ _ _ | .not _ | .isNull _ _ | .inList _ _ _ | .inSubquery _ _ _
  | .grouping _ | .caseSensitive _ | .raw _ => rfl

theorem wildcardTable?_map (f : σ → τ) : ∀ e : Expr σ, (e.map f).wildcardTable? = e.wildcardTable?
  | .alias e _ | .distinct e => wildcardTable?_map f e
  | .column _ | .wildcard _ | .literal _ | .typed _ _ | .aggregate _ _ _ | .call _ _
  | .binary _ _ _ | .not _ | .isNull _ _ | .inList _ _ _ | .inSubquery _ _ _ | .grouping _
  | .caseSensitive _ | .raw _ => rfl

mutual

theorem rename_map (n : Renaming) (f : σ → τ) : ∀ e : Expr σ,
    (e.map f).rename n = (e.rename n).map f
  | .column _ | .wildcard _ | .literal _ | .typed _ _ | .raw _ => rfl
  | .aggregate _ args _ | .call _ args => by
    rw [map, rename, rename, map, renameList_mapList n f args]
  | .alias e _ | .distinct e | .not e | .isNull e _ | .grouping e | .caseSensitive e
  | .inSubquery e _ _ => by rw [map, rename, rename, map, rename_map n f e]
  | .binary l _ r => by rw [map, rename, rename, map, rename_map n f l, rename_map n f r]
  | .inList e list _ => by
    rw [map, rename, rename, map, rename_map n f e, renameList_mapList n f list]

theorem renameList_mapList (n : Renaming) (f : σ → τ) : ∀ es : List (Expr σ),
    renameList n (mapList f es) = mapList f (renameList n es)
  | [] => rfl
  | e :: es => by
    rw [mapList, renameList, renameList, mapList, rename_map n f e, renameList_mapList n f es]

end

theorem normalized_map (f : σ → τ) (e : Expr σ) : (e.map f).normalized = e.normalized.map f := by
  rw [normalized, unmarked_map, unaliased_map, lowercase, rename_map]
  rfl

mutual

/-- Expressions are compared by their subqueries. -/
theorem sameWith_map (f : σ → τ) (eq : τ → τ → Bool) : ∀ e e' : Expr σ,
    sameWith eq (e.map f) (e'.map f) = sameWith (fun q q' => eq (f q) (f q')) e e'
  | .column _, e' | .wildcard _, e' | .literal _, e' | .typed _ _, e' | .raw _, e' => by
    cases e' <;> rfl
  | .aggregate _ args _, e' | .call _ args, e' => by
    cases e' <;> simp only [map, sameWith, sameListWith_mapList f eq args]
  | .alias e _, e' | .distinct e, e' | .not e, e' | .isNull e _, e' | .grouping e, e'
  | .caseSensitive e, e' | .inSubquery e _ _, e' => by
    cases e' <;> simp only [map, sameWith, sameWith_map f eq e]
  | .binary l _ r, e' => by
    cases e' <;> simp only [map, sameWith, sameWith_map f eq l, sameWith_map f eq r]
  | .inList e list _, e' => by
    cases e' <;> simp only [map, sameWith, sameWith_map f eq e, sameListWith_mapList f eq list]

theorem sameListWith_mapList (f : σ → τ) (eq : τ → τ → Bool) : ∀ es es' : List (Expr σ),
    sameListWith eq (mapList f es) (mapList f es') =
      sameListWith (fun q q' => eq (f q) (f q')) es es'
  | [], es' => by cases es' <;> rfl
  | e :: es, es' => by
    cases es' <;>
      simp only [mapList, sameListWith, sameWith_map f eq e, sameListWith_mapList f eq es]

end

/-- Replacing subqueries by themselves changes nothing. -/
theorem map_eq_self {f : σ → σ} {e : Expr σ} (h : ∀ q ∈ e.subqueries, f q = q) : e.map f = e :=
  (map_congr e h).trans (map_self e)

theorem map_eq_self_of_option {f : σ → σ} {e : Option (Expr σ)}
    (h : ∀ x ∈ e, ∀ q ∈ x.subqueries, f q = q) : e.map (·.map f) = e := by
  cases e with
  | none => rfl
  | some e => exact congrArg some (map_eq_self (h e rfl))

theorem map_eq_self_of_list {f : σ → σ} {es : List (Expr σ)}
    (h : ∀ e ∈ es, ∀ q ∈ e.subqueries, f q = q) : es.map (·.map f) = es :=
  (List.map_congr_left fun e he => map_eq_self (h e he)).trans (List.map_id es)

end Expr

/-! ## Levels -/

theorem Source.map_eq_self {f : σ → σ} : ∀ {s : Source σ},
    (∀ e ∈ s.conditions, ∀ q ∈ e.subqueries, f q = q) → s.map f = s
  | .table _, _ => rfl
  | .raw _, _ => rfl
  | .join _ left right condition, h => by
    simp only [conditions, List.mem_append, Option.mem_toList] at h
    rw [map, map_eq_self fun e he => h e (.inl (.inl he)),
      map_eq_self fun e he => h e (.inl (.inr he)),
      Expr.map_eq_self_of_option fun e he => h e (.inr he)]

theorem Core.map_eq_self {f : σ → σ} {c : Core σ}
    (h : ∀ e ∈ c.exprs, ∀ q ∈ e.subqueries, f q = q) : c.map f = c := by
  obtain ⟨projections, source, wheres, groups, having, distinct⟩ := c
  simp only [exprs, List.mem_append, Option.mem_toList] at h
  have hsource : source.map (·.map f) = source := by
    cases source with
    | none => rfl
    | some source => exact congrArg some (Source.map_eq_self fun e he => h e (.inr (by simpa)))
  rw [map, hsource, Expr.map_eq_self_of_list fun e he => h e (.inl (.inl (.inl (.inl he)))),
    Expr.map_eq_self_of_list fun e he => h e (.inl (.inl (.inl (.inr he)))),
    Expr.map_eq_self_of_list fun e he => h e (.inl (.inl (.inr he))),
    Expr.map_eq_self_of_option fun e he => h e (.inl (.inr he))]

theorem SelectBody.map_eq_self {f : σ → σ} {s : SelectBody σ}
    (h : ∀ e ∈ s.exprs, ∀ q ∈ e.subqueries, f q = q) : s.map f = s := by
  obtain ⟨cores, orders, limit, offset, lock⟩ := s
  simp only [exprs, List.mem_append, Option.mem_toList, List.mem_flatMap, List.mem_map] at h
  have hcores : cores.map (·.map f) = cores :=
    (List.map_congr_left fun c hc =>
      Core.map_eq_self fun e he => h e (.inl (.inl (.inl ⟨c, hc, he⟩)))).trans (List.map_id cores)
  have horders : orders.map (·.map f) = orders :=
    (List.map_congr_left fun k hk => congrArg (SortKey.mk · k.direction)
      (Expr.map_eq_self (h _ (.inl (.inl (.inr ⟨k, hk, rfl⟩)))))).trans (List.map_id orders)
  rw [map, hcores, horders, Expr.map_eq_self_of_option fun e he => h e (.inl (.inr he)),
    Expr.map_eq_self_of_option fun e he => h e (.inr he)]

namespace Select

/-- **A compiled select** keeps the select that it is compiled from. -/
theorem source_compiled (options : Options) (s : Select) : (compiled options s).source = s := by
  have step : Inductive fun s => (compiled options s).source = s := by
    intro body ih
    rw [compiled, fold_of]
    show Select.of ((body.map (compiled options)).map Compiled.source) = .of body
    rw [SelectBody.map_map, SelectBody.map_eq_self ih]
  exact induction step s

theorem map_source_compiled (options : Options) (e : Expr Select) :
    (e.map (compiled options)).map Compiled.source = e := by
  rw [Expr.map_map, Expr.map_eq_self fun q _ => source_compiled options q]

end Select

end Transact
