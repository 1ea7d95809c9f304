import Transact.Proofs.SelectList

/-!
# What is around a projection

A projection may have aliases and marks around it, in any sequence. `Expr.layers` reads them from
the outermost in, `Expr.undressed` is the expression below them, and `Expr.dressed` puts layers
around an expression.

* `Expr.unmarked_dressed`, `Expr.bare_dressed`: of the layers around an expression the aliases stay.
* `Expr.unmarked_eq_dressed`, `Expr.bare_eq_dressed`: so what remains are the aliases around the
  expression below, or around what that is built on.
* `Expr.unaliased_unmarked`: without aliases as well it is the expression below.
* `Expr.bare_eq_unmarked_iff`: only an aggregate below the layers is taken away besides the marks.
* `Expr.unmarked_bare_laws`: marks and aggregates can be taken away in either order and repeatedly.
-/

set_option autoImplicit false

namespace Transact

/-! ## Layers -/

/-- What may stand around a projection. -/
inductive Layer where
  /-- an alias -/
  | named (name : String)
  /-- the mark that asks for distinct rows -/
  | mark
deriving DecidableEq

section

variable {σ : Type}

namespace Layer

/-- The layer is an alias. -/
def isAlias : Layer → Bool
  | .named _ => true
  | .mark => false

/-- The layer around an expression. -/
def around : Layer → Expr σ → Expr σ
  | .named name, e => .alias e name
  | .mark, e => .distinct e

end Layer

namespace Expr

/-- The expression with layers around it, the first one outermost. -/
def dressed (e : Expr σ) : List Layer → Expr σ
  | [] => e
  | layer :: layers => layer.around (e.dressed layers)

/-- The layers around an expression, from the outermost in. -/
def layers : Expr σ → List Layer
  | .alias e name => .named name :: layers e
  | .distinct e => .mark :: layers e
  | _ => []

/-- The expression below all layers. -/
def undressed : Expr σ → Expr σ
  | .alias e _ => undressed e
  | .distinct e => undressed e
  | e => e

/-- What holds of expressions without layers and is kept by a layer holds of all. -/
@[elab_as_elim]
theorem induction_layers {motive : Expr σ → Prop} (below : ∀ e, e.isDressed = false → motive e)
    (named : ∀ e name, motive e → motive (.alias e name))
    (mark : ∀ e, motive e → motive (.distinct e)) : ∀ e, motive e
  | .alias e name => named e name (induction_layers below named mark e)
  | .distinct e => mark e (induction_layers below named mark e)
  | .column _ | .wildcard _ | .literal _ | .typed _ _ | .aggregate _ _ _ | .call _ _
  | .binary _ _ _ | .not _ | .isNull _ _ | .inList _ _ _ | .inSubquery _ _ _ | .grouping _
  | .caseSensitive _ | .raw _ => below _ rfl

section

variable {e : Expr σ} (h : e.isDressed = false)
include h

theorem layers_of_not_dressed : e.layers = [] := by
  cases e <;> first | rfl | cases h

theorem undressed_of_not_dressed : e.undressed = e := by
  cases e <;> first | rfl | cases h

theorem unmarked_of_not_dressed : e.unmarked = e := by
  cases e <;> first | rfl | cases h

theorem unaliased_of_not_dressed : e.unaliased = e := by
  cases e <;> first | rfl | cases h

theorem bare_of_not_dressed (haggregate : ∀ fn args d, e ≠ .aggregate fn args d) : e.bare = e := by
  cases e <;> first | rfl | exact absurd rfl (haggregate _ _ _) | cases h

end

theorem isDressed_undressed (e : Expr σ) : e.undressed.isDressed = false := by
  induction e using induction_layers with
  | below e h => rwa [undressed_of_not_dressed h]
  | named e name ih => exact ih
  | mark e ih => exact ih

/-- **An expression** is what is below its layers, with these around it. -/
theorem dressed_layers (e : Expr σ) : e.undressed.dressed e.layers = e := by
  induction e using induction_layers with
  | below e h => rw [undressed_of_not_dressed h, layers_of_not_dressed h, dressed]
  | named e name ih => rw [undressed, layers, dressed, ih, Layer.around]
  | mark e ih => rw [undressed, layers, dressed, ih, Layer.around]

theorem undressed_dressed (e : Expr σ) (layers : List Layer) :
    (e.dressed layers).undressed = e.undressed := by
  induction layers with
  | nil => rfl
  | cons layer layers ih => cases layer <;> exact ih

/-! ## Marks -/

theorem unmarked_dressed (e : Expr σ) (layers : List Layer) :
    (e.dressed layers).unmarked = e.unmarked.dressed (layers.filter Layer.isAlias) := by
  induction layers with
  | nil => rfl
  | cons layer layers ih =>
    cases layer with
    | named name => exact congrArg (Expr.alias · name) ih
    | mark => exact ih

/-- **Without its marks** an expression has its aliases around what is below. -/
theorem unmarked_eq_dressed (e : Expr σ) :
    e.unmarked = e.undressed.dressed (e.layers.filter Layer.isAlias) := by
  calc
    e.unmarked = (e.undressed.dressed e.layers).unmarked := by rw [dressed_layers]
    _ = e.undressed.unmarked.dressed (e.layers.filter Layer.isAlias) := unmarked_dressed _ _
    _ = e.undressed.dressed (e.layers.filter Layer.isAlias) := by
      rw [unmarked_of_not_dressed e.isDressed_undressed]

/-- Without its marks and aliases an expression is what is below. -/
theorem unaliased_unmarked (e : Expr σ) : e.unmarked.unaliased = e.undressed := by
  induction e using induction_layers with
  | below e h =>
    rw [unmarked_of_not_dressed h, unaliased_of_not_dressed h, undressed_of_not_dressed h]
  | named e name ih => exact ih
  | mark e ih => exact ih

theorem unaliased_unmarked_dressed (e : Expr σ) (layers : List Layer) :
    (e.dressed layers).unmarked.unaliased = e.unmarked.unaliased := by
  rw [unaliased_unmarked, unaliased_unmarked, undressed_dressed]

theorem undressed_of_not_marked {e : Expr σ} (h : e.isMarked = false) :
    e.undressed = e.unaliased := by
  rw [← unaliased_unmarked, unmarked_of_not_marked h]

/-! ## Aggregates -/

theorem bare_dressed (e : Expr σ) (layers : List Layer) :
    (e.dressed layers).bare = e.bare.dressed (layers.filter Layer.isAlias) := by
  induction layers with
  | nil => rfl
  | cons layer layers ih =>
    cases layer with
    | named name => exact congrArg (Expr.alias · name) ih
    | mark => exact ih

/-- **What an expression is built on** has its aliases around what the expression below is built
on. -/
theorem bare_eq_dressed (e : Expr σ) :
    e.bare = e.undressed.bare.dressed (e.layers.filter Layer.isAlias) := by
  rw [← bare_dressed, dressed_layers]

theorem unmarked_bare (e : Expr σ) : e.bare.unmarked = e.bare :=
  unmarked_of_not_marked e.isMarked_bare

theorem bare_unmarked (e : Expr σ) : e.unmarked.bare = e.bare := by
  rw [unmarked_eq_dressed, bare_dressed, List.filter_filter, bare_eq_dressed e]
  simp only [Bool.and_self]

theorem undressed_bare_ne_aggregate (e : Expr σ) (fn : AggregateFn) (args : List (Expr σ))
    (d : Bool) : e.bare.undressed ≠ .aggregate fn args d := by
  rw [undressed_of_not_marked e.isMarked_bare]
  exact unaliased_bare_ne_aggregate fn args d e

/-- **Only an aggregate** below the layers is taken away besides the marks. -/
theorem bare_eq_unmarked_iff {e : Expr σ} :
    e.bare = e.unmarked ↔ ∀ fn args d, e.undressed ≠ .aggregate fn args d := by
  constructor
  · intro h fn args d
    rw [← unaliased_unmarked, ← h, ← undressed_of_not_marked e.isMarked_bare]
    exact e.undressed_bare_ne_aggregate fn args d
  · intro h
    rw [bare_eq_dressed, bare_of_not_dressed e.isDressed_undressed h, unmarked_eq_dressed]

theorem bare_bare (e : Expr σ) : e.bare.bare = e.bare := by
  rw [bare_eq_unmarked_iff.2 e.undressed_bare_ne_aggregate, unmarked_bare]

/-- **Marks and aggregates can be taken away** in either order and repeatedly. No mark remains, the
aliases around the expression and all that is below them stay, and what two spellings have in common
is found below all marks and aliases, however many there are. -/
theorem unmarked_bare_laws (e : Expr σ) :
    (e.bare.bare = e.bare ∧ e.unmarked.unmarked = e.unmarked) ∧
    (e.unmarked.bare = e.bare ∧ e.bare.unmarked = e.bare) ∧
    (e.bare.isMarked = false ∧ e.unmarked.isMarked = false) ∧
    (e.undressed.dressed e.layers = e ∧ e.undressed.isDressed = false ∧
      e.unmarked = e.undressed.dressed (e.layers.filter Layer.isAlias)) ∧
    (e.bare = e.unmarked ↔ ∀ fn args d, e.undressed ≠ .aggregate fn args d) ∧
    (distinct e).unmarked.unaliased = e.unmarked.unaliased ∧
    (∀ name, (Expr.alias e name).unmarked.unaliased = e.unmarked.unaliased) ∧
    ∀ layers, (e.dressed layers).normalized = e.normalized := by
  refine ⟨⟨e.bare_bare, e.unmarked_unmarked⟩, ⟨e.bare_unmarked, e.unmarked_bare⟩,
    ⟨e.isMarked_bare, e.isMarked_unmarked⟩,
    ⟨e.dressed_layers, e.isDressed_undressed, e.unmarked_eq_dressed⟩, bare_eq_unmarked_iff,
    e.unaliased_unmarked_dressed [.mark], fun name => e.unaliased_unmarked_dressed [.named name],
    fun layers => ?_⟩
  rw [normalized, normalized, unaliased_unmarked_dressed]

end Expr

end

end Transact
