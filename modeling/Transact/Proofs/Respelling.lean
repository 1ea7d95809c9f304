import Mathlib.Data.List.Forall2
import Transact.Plan.Shape
import Transact.Proofs.Equality

/-!
# The case of names does not decide how a select is compiled

Names are the same in either case, and so two selects that differ in the spelling of their names
only have one strategy. `Expr.SpelledAlike` relates two spellings of a projection or a sort
expression, and `SelectBody.Respelled` two spellings of a select.

* `Expr.normalized_eq_lowercase`: marks and aliases are taken off before or after the names are
  lower-cased, with one outcome.
* `Expr.SpelledAlike.normalized`, `Expr.SpelledAlike.alias?`, `Expr.SpelledAlike.wildcardTable?`:
  what a shape asks of an expression does not show its spelling.
* `isCovered_respelled`: nor does what is projected.
* `Shape.strategy_respelled`: the strategies are the same.
-/

set_option autoImplicit false

namespace Transact

open Text (lower)

namespace Expr

/-! ## Renamed expressions -/

section

variable {σ : Type} (r : Renaming)

theorem unmarked_rename : ∀ e : Expr σ, (e.rename r).unmarked = e.unmarked.rename r
  | .alias e _ => by simp only [rename, unmarked, unmarked_rename e]
  | .distinct e => by simp only [rename, unmarked, unmarked_rename e]
  | .column _ | .wildcard _ | .literal _ | .typed _ _ | .aggregate _ _ _ | .call _ _
  | .binary _ _ _ | .not _ | .isNull _ _ | .inList _ _ _ | .inSubquery _ _ _ | .grouping _
  | .caseSensitive _ | .raw _ => by simp only [rename, unmarked]

theorem unaliased_rename : ∀ e : Expr σ, (e.rename r).unaliased = e.unaliased.rename r
  | .alias e _ => by simp only [rename, unaliased, unaliased_rename e]
  | .column _ | .wildcard _ | .literal _ | .typed _ _ | .aggregate _ _ _ | .call _ _
  | .distinct _ | .binary _ _ _ | .not _ | .isNull _ _ | .inList _ _ _ | .inSubquery _ _ _
  | .grouping _ | .caseSensitive _ | .raw _ => by simp only [rename, unaliased]

theorem wildcardTable?_rename : ∀ e : Expr σ,
    (e.rename r).wildcardTable? = e.wildcardTable?.map r.table
  | .alias e _ | .distinct e => by simp only [rename, wildcardTable?, wildcardTable?_rename e]
  | .column _ | .wildcard _ | .literal _ | .typed _ _ | .aggregate _ _ _ | .call _ _
  | .binary _ _ _ | .not _ | .isNull _ _ | .inList _ _ _ | .inSubquery _ _ _ | .grouping _
  | .caseSensitive _ | .raw _ => by simp only [rename, wildcardTable?, Option.map_none]

theorem alias?_rename (e : Expr σ) : (e.rename r).alias? = e.alias? := by
  cases e <;> simp only [rename, alias?]

theorem isMarked_rename (e : Expr σ) : (e.rename r).isMarked = e.isMarked := by
  rw [isMarked, isMarked, unaliased_rename]
  cases e.unaliased <;> simp only [rename]

theorem isCount_rename (e : Expr σ) : (e.rename r).isCount = e.isCount := by
  rw [isCount, isCount, unaliased_rename]
  cases e.unaliased with
  | aggregate fn _ _ => cases fn <;> simp only [rename]
  | _ => simp only [rename]

/-- **Marks and aliases** are taken off before or after the names are lower-cased. -/
theorem normalized_eq_lowercase (e : Expr σ) : e.normalized = e.lowercase.unmarked.unaliased := by
  rw [normalized, lowercase, lowercase, unmarked_rename, unaliased_rename]

end

/-! ## Equal expressions -/

section

variable {σ τ : Type} {eq : σ → τ → Bool}

theorem alias?_eq_of_sameWith {e : Expr σ} {e' : Expr τ} (h : sameWith eq e e' = true) :
    e.alias? = e'.alias? := by
  cases e <;> cases e' <;> first | rfl | cases h | skip
  simp only [sameWith, Bool.and_eq_true, beq_iff_eq] at h
  simp only [alias?, h.2]

theorem wildcardTable?_eq_of_sameWith : ∀ {e : Expr σ} {e' : Expr τ}, sameWith eq e e' = true →
    e.wildcardTable? = e'.wildcardTable?
  | .alias e _, e', h => by
    cases e' <;> simp only [sameWith, Bool.false_eq_true, Bool.and_eq_true] at h
    simpa only [wildcardTable?] using wildcardTable?_eq_of_sameWith h.1
  | .distinct e, e', h => by
    cases e' <;> simp only [sameWith, Bool.false_eq_true] at h
    simpa only [wildcardTable?] using wildcardTable?_eq_of_sameWith h
  | .wildcard _, e', h => by
    cases e' <;> simp only [sameWith, Bool.false_eq_true, beq_iff_eq] at h
    simpa only [wildcardTable?] using h
  | .column _, e', h | .literal _, e', h | .typed _ _, e', h | .aggregate _ _ _, e', h
  | .call _ _, e', h | .binary _ _ _, e', h | .not _, e', h | .isNull _ _, e', h
  | .inList _ _ _, e', h | .inSubquery _ _ _, e', h | .grouping _, e', h | .caseSensitive _, e', h
  | .raw _, e', h => by
    cases e' <;> first | rfl | cases h

theorem isMarked_eq_of_sameWith {e : Expr σ} {e' : Expr τ} (h : sameWith eq e e' = true) :
    e.isMarked = e'.isMarked := by
  have hbelow := sameWith_unaliased h
  rw [isMarked, isMarked]
  cases hl : e.unaliased <;> cases hr : e'.unaliased <;>
    first | rfl | (rw [hl, hr] at hbelow; cases hbelow)

theorem isCount_eq_of_sameWith {e : Expr σ} {e' : Expr τ} (h : sameWith eq e e' = true) :
    e.isCount = e'.isCount := by
  have hbelow := sameWith_unaliased h
  rw [isCount, isCount]
  cases hl : e.unaliased with
  | aggregate fn _ _ =>
    cases hr : e'.unaliased
    all_goals
      rw [hl, hr] at hbelow
      simp only [sameWith, Bool.false_eq_true, Bool.and_eq_true, beq_iff_eq] at hbelow
    obtain ⟨⟨rfl, -⟩, -⟩ := hbelow
    cases fn <;> rfl
  | _ => cases hr : e'.unaliased <;> first | rfl | (rw [hl, hr] at hbelow; cases hbelow)

end

/-! ## Two spellings of an expression -/

/-- Two spellings of a projection or of a sort expression: they are equal in lower case, and the
outermost alias, which is not lower-cased with the other names, may differ in case as well. -/
inductive SpelledAlike : Expr Select → Expr Select → Prop
  | names {e e' : Expr Select} : (e.lowercase == e'.lowercase) = true → SpelledAlike e e'
  | outermost {e e' : Expr Select} {name name' : String} : (e.lowercase == e'.lowercase) = true →
      lower name = lower name' → SpelledAlike (.alias e name) (.alias e' name')

namespace SpelledAlike

variable {e e' : Expr Select}

/-- What holds of equal expressions and does not look at aliases holds of two spellings. -/
theorem below {p : Expr Select → Expr Select → Prop}
    (hnames : ∀ {e e' : Expr Select}, (e.lowercase == e'.lowercase) = true → p e e')
    (halias : ∀ {e e' : Expr Select} {name name' : String}, p e e' →
      p (.alias e name) (.alias e' name'))
    (h : SpelledAlike e e') : p e e' := by
  cases h with
  | names h => exact hnames h
  | outermost h _ => exact halias (hnames h)

/-- What two spellings have in common is the same. -/
theorem normalized (h : SpelledAlike e e') : (e.normalized == e'.normalized) = true := by
  refine h.below (p := fun e e' => (e.normalized == e'.normalized) = true) (fun h => ?_) id
  rw [normalized_eq_lowercase, normalized_eq_lowercase]
  exact sameWith_unaliased (sameWith_unmarked h)

theorem alias? (h : SpelledAlike e e') : e.alias?.map lower = e'.alias?.map lower := by
  cases h with
  | names h =>
    have halias := alias?_eq_of_sameWith h
    rw [lowercase, lowercase, alias?_rename, alias?_rename] at halias
    rw [halias]
  | outermost _ hname => exact congrArg some hname

theorem wildcardTable? (h : SpelledAlike e e') :
    e.wildcardTable?.map lower = e'.wildcardTable?.map lower := by
  refine h.below (p := fun e e' => e.wildcardTable?.map lower = e'.wildcardTable?.map lower)
    (fun h => ?_) id
  have htable := wildcardTable?_eq_of_sameWith h
  rwa [lowercase, lowercase, wildcardTable?_rename, wildcardTable?_rename] at htable

theorem isMarked (h : SpelledAlike e e') : e.isMarked = e'.isMarked := by
  refine h.below (p := fun e e' => e.isMarked = e'.isMarked) (fun h => ?_) id
  have hmark := isMarked_eq_of_sameWith h
  rwa [lowercase, lowercase, isMarked_rename, isMarked_rename] at hmark

theorem isCount (h : SpelledAlike e e') : e.isCount = e'.isCount := by
  refine h.below (p := fun e e' => e.isCount = e'.isCount) (fun h => ?_) id
  have hcount := isCount_eq_of_sameWith h
  rwa [lowercase, lowercase, isCount_rename, isCount_rename] at hcount

end SpelledAlike

end Expr

open Transact.Expr (SpelledAlike)

/-! ## What is projected -/

section

variable {ps ps' : List (Expr Select)} {key key' : Expr Select}

/-- What is said of a projection in lower case does not show the spelling of the projections. -/
theorem filterMap_lower_respelled {f : Expr Select → Option String}
    (hf : ∀ {p p' : Expr Select}, SpelledAlike p p' → (f p).map lower = (f p').map lower)
    (h : List.Forall₂ SpelledAlike ps ps') :
    (ps.filterMap f).map lower = (ps'.filterMap f).map lower := by
  induction h with
  | nil => rfl
  | @cons p p' ps ps' hp _ ih =>
    have hone := hf hp
    cases hl : f p <;> cases hr : f p' <;> simp_all

/-- The projections that equal an expression do not show their spelling. -/
theorem contains_normalized_respelled {e e' : Expr Select} (he : (e == e') = true)
    (h : List.Forall₂ SpelledAlike ps ps') :
    (ps.map Expr.normalized).contains e = (ps'.map Expr.normalized).contains e' := by
  rw [List.contains_congr he]
  induction h with
  | nil => rfl
  | cons hp _ ih =>
    rw [List.map_cons, List.map_cons, List.contains_cons, List.contains_cons, ih,
      BEq.congr_right hp.normalized]

/-- **What is projected** does not show the spelling of names. -/
theorem isCovered_respelled (hps : List.Forall₂ SpelledAlike ps ps')
    (hkey : SpelledAlike key key') : isCovered ps key = isCovered ps' key' := by
  have hnormalized := hkey.normalized
  have hprojected := contains_normalized_respelled hnormalized hps
  have hwhole := filterMap_lower_respelled Expr.SpelledAlike.wildcardTable? hps
  have haliases := filterMap_lower_respelled Expr.SpelledAlike.alias? hps
  simp only [isCovered, hprojected, hwhole, haliases]
  generalize key.normalized = e at hnormalized ⊢
  generalize key'.normalized = e' at hnormalized ⊢
  -- the two are columns together, and then the same column
  cases e with
  | column col =>
    cases e' with
    | column col' =>
      obtain rfl : col = col' := beq_iff_eq.1 hnormalized
      rfl
    | _ => cases hnormalized
  | _ => cases e' <;> first | rfl | cases hnormalized

end

/-! ## Strategies -/

/-- Two spellings of a select with these first cores: their projections and orders are spelled
alike, in the same sequence. Conditions, groups and locks may be different. -/
structure SelectBody.Respelled (s s' : SelectBody Select) (c c' : Core Select) : Prop where
  limit : s.limit = s'.limit
  offset : s.offset = s'.offset
  source : c.source = c'.source
  distinct : c.distinct = c'.distinct
  projections : List.Forall₂ SpelledAlike c.projections c'.projections
  orders : List.Forall₂ (fun k k' => SpelledAlike k.expr k'.expr) s.orders s'.orders

namespace SelectBody.Respelled

variable {s s' : SelectBody Select} {c c' : Core Select}

theorem countOnly (h : s.Respelled s' c c') : c.countOnly = c'.countOnly := by
  have hps := h.projections
  rw [Core.countOnly, Core.countOnly]
  generalize c.projections = ps at hps ⊢
  generalize c'.projections = ps' at hps ⊢
  cases hps with
  | nil => rfl
  | cons hp hps =>
    cases hps with
    | nil => exact hp.isCount
    | cons => rfl

theorem isDistinct (h : s.Respelled s' c c') :
    (Shape.of s c).isDistinct = (Shape.of s' c').isDistinct := by
  have hps := h.projections
  simp only [Shape.of, h.distinct]
  generalize c.projections = ps at hps ⊢
  generalize c'.projections = ps' at hps ⊢
  cases hps with
  | nil => rfl
  | cons hp _ => simp [hp.isMarked]

theorem foreignOrder (h : s.Respelled s' c c') :
    (Shape.of s c).foreignOrder = (Shape.of s' c').foreignOrder := by
  have horders := h.orders
  simp only [Shape.of]
  generalize s.orders = keys at horders ⊢
  generalize s'.orders = keys' at horders ⊢
  induction horders with
  | nil => rfl
  | cons hk _ ih => rw [List.any_cons, List.any_cons, isCovered_respelled h.projections hk, ih]

end SelectBody.Respelled

/-- **The case of names** does not decide how a select is compiled: two spellings of a select have
one strategy. -/
theorem Shape.strategy_respelled {s s' : SelectBody Select} {c c' : Core Select}
    (h : s.Respelled s' c c') : (Shape.of s c).strategy = (Shape.of s' c').strategy := by
  have hcount : (Shape.of s c).countOnly = (Shape.of s' c').countOnly := h.countOnly
  have hlimit : (Shape.of s c).hasLimit = (Shape.of s' c').hasLimit :=
    congrArg Option.isSome h.limit
  have hoffset : (Shape.of s c).hasOffset = (Shape.of s' c').hasOffset :=
    congrArg Option.isSome h.offset
  have hjoin : (Shape.of s c).hasJoin = (Shape.of s' c').hasJoin :=
    congrArg (Option.any Source.isJoin) h.source
  rw [strategy, strategy, hcount, hlimit, hoffset, hjoin, h.isDistinct, h.foreignOrder]

/-- Distinct people with a greeting and all of their pets. -/
def greetedCore (people name greeting pets : String) : Core Select where
  projections := [.distinct (.qualified people name),
    .alias (.call "CONCAT" [.textConstant "Dear ", .qualified people name]) greeting, .allOf pets]
  source := some (.table { name := "people" })

/-- The same, sorted by what is projected, which is spelled in another way there. -/
def greetedSelect (core : Core Select) (people name greeting pets : String) :
    SelectBody Select where
  cores := [core]
  orders := [(Expr.qualified people name).desc, (Expr.named greeting).asc,
    (Expr.qualified pets "Age").asc]

theorem Shape.strategy_respelled_greeted :
    let c := greetedCore "people" "Name" "gREETING" "PETS"
    let c' := greetedCore "pEOPLE" "nAME" "greeting" "pETS"
    let s := greetedSelect c "People" "NAME" "Greeting" "pets"
    let s' := greetedSelect c' "PEOPLE" "name" "GREETING" "Pets"
    s.Respelled s' c c' ∧ (Shape.of s c).strategy = .plain ∧
      (Shape.of s' c').strategy = .plain := by
  intro c c' s s'
  have hrespelled : s.Respelled s' c c' :=
    { limit := rfl
      offset := rfl
      source := rfl
      distinct := rfl
      projections := .cons (.names (by decide +kernel)) <|
        .cons (.outermost (by decide +kernel) (by decide +kernel)) <|
        .cons (.names (by decide +kernel)) .nil
      orders := .cons (.names (by decide +kernel)) <| .cons (.names (by decide +kernel)) <|
        .cons (.names (by decide +kernel)) .nil }
  have hplain : (Shape.of s c).strategy = .plain := by decide +kernel
  exact ⟨hrespelled, hplain, (Shape.strategy_respelled hrespelled).symm.trans hplain⟩

end Transact
