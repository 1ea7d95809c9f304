import Transact.Select

/-!
# Folds over selects

A fold goes down into the subqueries of a select through all of its parts. Main statement:

* `Select.fold_of`: a fold over a select folds its subqueries first and then the level above them.
-/

set_option autoImplicit false

namespace Transact

theorem Expr.mapList_eq {σ τ : Type} (f : σ → τ) :
    ∀ es : List (Expr σ), Expr.mapList f es = es.map (·.map f)
  | [] => rfl
  | e :: es => by rw [Expr.mapList, mapList_eq f es, List.map_cons]

namespace Select

variable {α : Type} (level : SelectBody α → α)

mutual

theorem foldExpr_eq : ∀ e : Expr Select, foldExpr level e = e.map (fold level)
  | .column _ => rfl
  | .wildcard _ => rfl
  | .literal _ => rfl
  | .typed _ _ => rfl
  | .aggregate fn args d => by rw [foldExpr, Expr.map, foldList_eq args]
  | .call name args => by rw [foldExpr, Expr.map, foldList_eq args]
  | .alias e name => by rw [foldExpr, Expr.map, foldExpr_eq e]
  | .distinct e => by rw [foldExpr, Expr.map, foldExpr_eq e]
  | .binary l op r => by rw [foldExpr, Expr.map, foldExpr_eq l, foldExpr_eq r]
  | .not e => by rw [foldExpr, Expr.map, foldExpr_eq e]
  | .isNull e n => by rw [foldExpr, Expr.map, foldExpr_eq e]
  | .inList e list n => by rw [foldExpr, Expr.map, foldExpr_eq e, foldList_eq list]
  | .inSubquery e q n => by rw [foldExpr, Expr.map, foldExpr_eq e]
  | .grouping e => by rw [foldExpr, Expr.map, foldExpr_eq e]
  | .caseSensitive e => by rw [foldExpr, Expr.map, foldExpr_eq e]
  | .raw _ => rfl

theorem foldList_eq : ∀ es : List (Expr Select), foldList level es = Expr.mapList (fold level) es
  | [] => rfl
  | e :: es => by rw [foldList, Expr.mapList, foldExpr_eq e, foldList_eq es]

end

theorem foldOption_eq (e : Option (Expr Select)) :
    foldOption level e = e.map (·.map (fold level)) := by
  cases e with
  | none => rfl
  | some e => rw [foldOption, foldExpr_eq, Option.map_some]

theorem foldSource_eq : ∀ s : Source Select, foldSource level s = s.map (fold level)
  | .table _ => rfl
  | .join kind left right condition => by
    rw [foldSource, Source.map, foldSource_eq left, foldSource_eq right, foldOption_eq]
  | .raw _ => rfl

theorem foldKeys_eq : ∀ ks : List (SortKey Select), foldKeys level ks = ks.map (·.map (fold level))
  | [] => rfl
  | ⟨e, d⟩ :: ks => by rw [foldKeys, foldKeys_eq ks, foldExpr_eq, List.map_cons, SortKey.map]

theorem foldSourceOption_eq (s : Option (Source Select)) :
    foldSourceOption level s = s.map (·.map (fold level)) := by
  cases s with
  | none => rfl
  | some s => rw [foldSourceOption, foldSource_eq, Option.map_some]

theorem foldCores_eq : ∀ cs : List (Core Select), foldCores level cs = cs.map (·.map (fold level))
  | [] => rfl
  | ⟨projections, source, wheres, groups, having, distinct⟩ :: cs => by
    rw [foldCores, foldCores_eq cs, List.map_cons, Core.map]
    simp only [foldList_eq, foldOption_eq, foldSourceOption_eq, Expr.mapList_eq]

/-- **A fold** folds the subqueries first and then the level above them. -/
theorem fold_of (body : SelectBody Select) :
    (Select.of body).fold level = level (body.map (fold level)) := by
  obtain ⟨cores, orders, limit, offset, lock⟩ := body
  rw [fold, foldCores_eq, foldKeys_eq, foldOption_eq, foldOption_eq, SelectBody.map]

end Select

end Transact
