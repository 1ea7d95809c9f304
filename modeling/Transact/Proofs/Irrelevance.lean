import Transact.Proofs.Composition

/-!
# What a select does not depend on

The query of a select is made from its first core, and from what is known of the base table of that
core. `SelectBody.Alike` relates selects that differ only elsewhere:

* in the cores after the first one;
* in the columns of the base table after the first one, and in all that the schema says about the
  other tables (`Source.Alike`);
* in conditions that their join does not use, as long as they use the same names.

`Core.Alike.twins` says that first cores related in this way are twins, and
`SelectBody.Alike.sameNames` that the compiler chooses the same names next to them. So the selects
are compiled to the same text (`Select.sql_alike`).
-/

set_option autoImplicit false

namespace Transact

open Trace (Like)

variable {σ τ : Type}

/-! ## The same names -/

/-- The same names occur, whatever their order and the case of their letters. -/
def SameNames (names names' : List String) : Prop :=
  ∀ n, n ∈ names.map Text.lower ↔ n ∈ names'.map Text.lower

namespace SameNames

theorem refl (names : List String) : SameNames names names := fun _ => Iff.rfl

theorem symm {names names' : List String} (h : SameNames names names') : SameNames names' names :=
  fun n => (h n).symm

theorem append {as as' bs bs' : List String} (has : SameNames as as') (hbs : SameNames bs bs') :
    SameNames (as ++ bs) (as' ++ bs') := by
  intro n
  rw [List.map_append, List.map_append, List.mem_append, List.mem_append, has n, hbs n]

end SameNames

/-! ## Sources -/

/-- **Sources that are not told apart.** With `true` they start with the base table, of which the
first column counts; of a table that is joined to it, nothing counts that the schema says. -/
inductive Source.Alike : Bool → Source σ → Source σ → Prop
  | base {t t' : TableRef} (h : t'.trimmed = t.trimmed) : Alike true (.table t) (.table t')
  | joined {t t' : TableRef} (h : t'.plain = t.plain) : Alike false (.table t) (.table t')
  | raw (first : Bool) (text : String) : Alike first (.raw text) (.raw text)
  | join {first : Bool} {left left' right right' : Source σ} (kind : JoinKind)
      (condition : Option (Expr σ)) (hleft : Alike first left left')
      (hright : Alike false right right') :
      Alike first (.join kind left right condition) (.join kind left' right' condition)
  | unused {first : Bool} {kind : JoinKind} {left left' right right' : Source σ}
      {condition condition' : Option (Expr σ)} (hkind : kind = .cross ∨ kind = .fragment)
      (hleft : Alike first left left') (hright : Alike false right right')
      (hnames : SameNames (Expr.namesList condition.toList)
        (Expr.namesList condition'.toList)) :
      Alike first (.join kind left right condition) (.join kind left' right' condition')

theorem TableRef.plain_of_trimmed {t t' : TableRef} (h : t'.trimmed = t.trimmed) :
    t'.plain = t.plain := by
  have hplain := congrArg plain h
  exact hplain

namespace Source.Alike

variable {first : Bool} {s s' : Source σ}

theorem symm (h : Alike first s s') : Alike first s' s := by
  induction h with
  | base h => exact .base h.symm
  | joined h => exact .joined h.symm
  | raw first text => exact .raw first text
  | join kind condition _ _ ihleft ihright => exact .join kind condition ihleft ihright
  | unused hkind _ _ hnames ihleft ihright => exact .unused hkind ihleft ihright hnames.symm

theorem map (h : Alike first s s') (g : σ → τ) : Alike first (s.map g) (s'.map g) := by
  have hoption : ∀ e : Option (Expr σ),
      Expr.namesList (e.map (·.map g)).toList = Expr.namesList e.toList := by
    intro e
    cases e <;> simp [Expr.namesList, Expr.names_map]
  induction h with
  | base h => exact .base h
  | joined h => exact .joined h
  | raw first text => exact .raw first text
  | join kind condition _ _ ihleft ihright => exact .join kind _ ihleft ihright
  | unused hkind _ _ hnames ihleft ihright =>
    refine .unused hkind ihleft ihright ?_
    rwa [hoption, hoption]

theorem isJoin (h : Alike first s s') : s'.isJoin = s.isJoin := by
  cases h <;> rfl

theorem baseTable (h : Alike true s s') : s'.baseTable.trimmed = s.baseTable.trimmed := by
  generalize hfirst : true = first at h
  induction h with
  | base h => exact h
  | joined => cases hfirst
  | raw => rfl
  | join _ _ _ _ ihleft => exact ihleft hfirst
  | unused _ _ _ _ ihleft => exact ihleft hfirst

theorem sameNames (h : Alike first s s') : SameNames s.names s'.names := by
  have htable : ∀ {t t' : TableRef}, t'.plain = t.plain →
      SameNames (.table t : Source σ).names (.table t' : Source σ).names := by
    intro t t' h
    obtain ⟨hname, -, halias, -⟩ := TableRef.mk.inj h
    rw [names, names, hname, halias]
    exact .refl _
  induction h with
  | base h => exact htable (TableRef.plain_of_trimmed h)
  | joined h => exact htable h
  | raw => exact .refl _
  | join _ _ _ _ ihleft ihright => exact (ihleft.append ihright).append (.refl _)
  | unused _ _ _ hnames ihleft ihright => exact (ihleft.append ihright).append hnames

/-- The sources come to the same up to what the schema says: a condition that the join does not use
is left out. -/
theorem like_mapM {ρ : Type} (h : Alike first s s') (f : σ → Trace τ) (view : τ → ρ) :
    Like (fun s => (s.map view).plain) (s.mapM f) (s'.mapM f) := by
  induction h with
  | base h => exact .pure (congrArg Source.table (TableRef.plain_of_trimmed h).symm)
  | joined h => exact .pure (congrArg Source.table h.symm)
  | raw => exact Like.refl _ _
  | join kind condition _ _ ihleft ihright =>
    rw [mapM, mapM]
    refine ihleft.bind fun l l' hl => ihright.bind fun r r' hr => ?_
    have hjoin : ∀ condition, Like (fun s => (Source.map view s).plain)
        (pure (.join kind l r condition)) (pure (.join kind l' r' condition)) :=
      fun condition => .pure (by simp only [Source.map, plain, hl, hr])
    cases condition with
    | none => cases kind <;> exact hjoin none
    | some condition =>
      cases kind
      case cross | fragment => exact hjoin none
      all_goals exact Like.bind_same _ fun _ => hjoin _
  | unused hkind _ _ _ ihleft ihright =>
    rw [mapM, mapM]
    refine ihleft.bind fun l l' hl => ihright.bind fun r r' hr => ?_
    rcases hkind with rfl | rfl
    · exact .pure (by simp only [Source.map, plain, hl, hr])
    · exact .pure (by simp only [Source.map, plain, hl, hr])

/-- A source in which a text is joined to a left join is only like another one of this form, with a
table of the same name. -/
theorem exists_of_leftJoin {left : Source σ} {t : TableRef} {condition rest : Option (Expr σ)}
    {text : String} (h : Alike first
      (.join .fragment (.join .leftOuter left (.table t) condition) (.raw text) rest) s') :
    ∃ left' t' rest', t'.name = t.name ∧
      s' = .join .fragment (.join .leftOuter left' (.table t') condition) (.raw text) rest' ∧
      ∀ text, Alike first
        (.join .fragment (.join .leftOuter left (.table t) condition) (.raw text) rest)
        (.join .fragment (.join .leftOuter left' (.table t') condition) (.raw text) rest') := by
  have hinner : ∀ {l : Source σ}, Alike first (.join .leftOuter left (.table t) condition) l →
      ∃ left' t', t'.name = t.name ∧ l = .join .leftOuter left' (.table t') condition := by
    intro l h
    cases h with
    | join _ _ _ hright =>
      cases hright with
      | joined ht => exact ⟨_, _, (TableRef.mk.inj ht).1, rfl⟩
    | unused hkind => simp at hkind
  cases h with
  | join _ _ hleft hright =>
    obtain ⟨left', t', hname, rfl⟩ := hinner hleft
    cases hright
    exact ⟨left', t', rest, hname, rfl, fun text => .join _ _ hleft (.raw _ text)⟩
  | unused hkind hleft hright hnames =>
    obtain ⟨left', t', hname, rfl⟩ := hinner hleft
    cases hright
    exact ⟨left', t', _, hname, rfl, fun text => .unused hkind hleft (.raw _ text) hnames⟩

/-- Correlation looks at names of tables and at joined texts only. -/
theorem correlated (h : Alike first s s') : Alike first s.correlated.1 s'.correlated.1 := by
  fun_cases Source.correlated s with
  | case1 left t condition text rest fixed hfixed =>
    obtain ⟨left', t', rest', hname, rfl, halike⟩ := h.exists_of_leftJoin
    rw [Source.correlated, hname, hfixed]
    exact halike _
  | case2 left t condition text rest hfixed =>
    obtain ⟨left', t', rest', hname, rfl, halike⟩ := h.exists_of_leftJoin
    rw [Source.correlated, hname, hfixed]
    exact halike _
  | case3 s hother =>
    suffices hother' : ∀ left t condition text rest,
        s' = .join .fragment (.join .leftOuter left (.table t) condition) (.raw text) rest →
          False by
      rwa [Source.correlated.eq_2 _ hother']
    rintro left t condition text rest rfl
    obtain ⟨left', t', rest', -, hs, -⟩ := h.symm.exists_of_leftJoin
    exact hother _ _ _ _ _ hs

end Source.Alike

/-! ## Cores and levels -/

/-- First cores that are not told apart. -/
structure Core.Alike (c c' : Core σ) : Prop where
  projections : c'.projections = c.projections
  source : Option.Rel (Source.Alike true) c.source c'.source
  wheres : c'.wheres = c.wheres
  groups : c'.groups = c.groups
  having : c'.having = c.having
  distinct : c'.distinct = c.distinct

/-- Levels that are not told apart: nothing is asked of the cores after the first one. -/
structure SelectBody.Alike (s s' : SelectBody σ) : Prop where
  cores : Option.Rel Core.Alike s.cores.head? s'.cores.head?
  orders : s'.orders = s.orders
  limit : s'.limit = s.limit
  offset : s'.offset = s.offset
  lock : s'.lock = s.lock

theorem cases_of_rel {α : Type} {r : α → α → Prop} {a b : Option α} (h : Option.Rel r a b) :
    (a = none ∧ b = none) ∨ ∃ x y, a = some x ∧ b = some y ∧ r x y := by
  cases h with
  | none => exact .inl ⟨rfl, rfl⟩
  | some h => exact .inr ⟨_, _, rfl, rfl, h⟩

namespace Core.Alike

variable {c c' : Core σ}

theorem map (h : c.Alike c') (g : σ → τ) : (c.map g).Alike (c'.map g) where
  projections := congrArg (List.map (Expr.map g)) h.projections
  source := by
    rw [Core.map, Core.map]
    obtain ⟨hc, hc'⟩ | ⟨s, s', hc, hc', hs⟩ := cases_of_rel h.source
    · rw [hc, hc']
      exact .none
    · rw [hc, hc']
      exact .some (hs.map g)
  wheres := congrArg (List.map (Expr.map g)) h.wheres
  groups := congrArg (List.map (Expr.map g)) h.groups
  having := congrArg (Option.map (Expr.map g)) h.having
  distinct := h.distinct

theorem correlated (h : c.Alike c') :
    Core.Alike { c with source := c.source.map fun s => s.correlated.1 }
      { c' with source := c'.source.map fun s => s.correlated.1 } where
  __ := h
  source := by
    obtain ⟨hc, hc'⟩ | ⟨s, s', hc, hc', hs⟩ := cases_of_rel h.source
    · rw [hc, hc']
      exact .none
    · rw [hc, hc']
      exact .some hs.correlated

theorem sameNames (h : c.Alike c') : SameNames c.names c'.names := by
  rw [names, names, h.projections, h.wheres, h.groups, h.having]
  refine (SameNames.refl _).append ?_
  obtain ⟨hc, hc'⟩ | ⟨s, s', hc, hc', hs⟩ := cases_of_rel h.source
  · rw [hc, hc']
    exact .refl _
  · simpa [hc, hc'] using hs.sameNames

/-- **First cores that are alike** are twins. -/
theorem twins (h : c.Alike c') (sc : Scope σ) (collation : String) :
    sc.Twins collation c c' where
  projections := h.projections
  groups := h.groups
  distinct := h.distinct
  baseTable? := by
    unfold Core.baseTable?
    obtain ⟨hc, hc'⟩ | ⟨s, s', hc, hc', hs⟩ := cases_of_rel h.source
    · rw [hc, hc']
    · rw [hc, hc']
      exact congrArg some hs.baseTable
  isJoin := by
    obtain ⟨hc, hc'⟩ | ⟨s, s', hc, hc', hs⟩ := cases_of_rel h.source
    · rw [hc, hc']
    · rw [hc, hc']
      exact hs.isJoin
  frame := by
    intro s groups
    have hrows : Like (fun rows => (rows.map (Rows.map (Query.sql collation))).map Rows.plain)
        (sc.rows c.source s.lock) (sc.rows c'.source s.lock) := by
      obtain ⟨hc, hc'⟩ | ⟨source, source', hc, hc', hs⟩ := cases_of_rel h.source
      · rw [hc, hc']
        exact Like.refl _ _
      · rw [hc, hc']
        exact (hs.like_mapM sc.subquery (Query.sql collation)).bind fun _ _ hplain =>
          .pure (by simp only [Option.map_some, Rows.map, Rows.plain, hplain])
    rw [Scope.frame, Scope.frame, h.wheres, h.having]
    refine hrows.bind fun _ _ hplain => ?_
    refine Like.bind_same _ fun _ => Like.bind_same _ fun _ => Like.bind_same _ fun _ => ?_
    exact .pure (by simp only [QueryBody.outline, QueryBody.map, hplain])

end Core.Alike

namespace SelectBody.Alike

variable {s s' : SelectBody σ}

theorem map (h : s.Alike s') (g : σ → τ) : (s.map g).Alike (s'.map g) where
  cores := by
    rw [SelectBody.map, SelectBody.map, List.head?_map, List.head?_map]
    obtain ⟨hs, hs'⟩ | ⟨c, c', hs, hs', hc⟩ := cases_of_rel h.cores
    · rw [hs, hs']
      exact .none
    · rw [hs, hs']
      exact .some (hc.map g)
  orders := congrArg (List.map (SortKey.map g)) h.orders
  limit := congrArg (Option.map (Expr.map g)) h.limit
  offset := congrArg (Option.map (Expr.map g)) h.offset
  lock := h.lock

theorem sameNames (h : s.Alike s') : SameNames s.names s'.names := by
  rw [names, names, h.orders]
  refine SameNames.append ?_ (.refl _)
  obtain ⟨hs, hs'⟩ | ⟨c, c', hs, hs', hc⟩ := cases_of_rel h.cores
  · rw [hs, hs']
    exact .refl _
  · simpa [hs, hs'] using hc.sameNames

/-- **Levels that are alike** are compiled to the same text. -/
theorem like_compile [BEq σ] (h : s.Alike s') (options : Options) (subquery : σ → Trace Query)
    (collation : String) :
    Like (Query.sql collation) (s.compile options subquery) (s'.compile options subquery) := by
  have hscope : s'.scope options subquery = s.scope options subquery := by
    rw [scope, scope, SyntheticNames.avoiding_congr h.sameNames]
  refine Like.congr ?_ (compile_result ..) (compile_result ..)
  rw [hscope, h.orders]
  refine Like.bind_same _ fun orders => ?_
  obtain ⟨cores, _, limit, offset, lock⟩ := s
  obtain ⟨cores', _, _, _, _⟩ := s'
  obtain ⟨hcores, rfl, rfl, rfl, rfl⟩ := h
  cases cores with
  | nil =>
    cases cores' with
    | nil => exact Like.refl _ _
    | cons c' cores' => cases hcores
  | cons c cores =>
    cases cores' with
    | nil => cases hcores
    | cons c' cores' =>
      cases hcores with
      | some hc =>
        -- a core is compiled without a look at the list of cores
        exact (hc.twins _ collation).like_core _ (hc.correlated.twins _ collation)

end SelectBody.Alike

/-! ## Selects -/

namespace Select

/-- **What must not matter does not**: selects that are alike are compiled to the same text, or fail
alike. -/
theorem sql_alike {options : Options} {s s' : Select} (h : s.body.Alike s'.body) :
    Statement.sql options (.select s) = Statement.sql options (.select s') := by
  rw [← like_compile_iff, compile_eq, compile_eq]
  exact (h.map _).like_compile options Compiled.query options.collation

/-- A page of the distinct rows of a table without a known key, which is joined to another table
and to a text. -/
def distinctPage (t u : TableRef) (condition : Expr Select) : Core Select where
  projections := [.allOf "t"]
  source := some
    (.join .fragment (.join .leftOuter (.table t) (.table u) (some (.isNull (.named "b") false)))
      (.raw "INNER JOIN [u] ON [u].[c] = 1") (some condition))
  distinct := true

/-- The page with much said that does not matter. -/
def talkativePage : Select :=
  .of
    { cores :=
        [distinctPage { name := "t", columns := ["a", "b", "c"] }
          { name := "u", primaryKey := some "k", columns := ["k", "c"] }
          (.equals (.named "x") (.named "y")),
        { projections := [.star] }]
      offset := some (.int 1) }

/-- The page with little said beyond what matters. -/
def tersePage : Select :=
  .of
    { cores :=
        [distinctPage { name := "t", columns := ["a"] } { name := "u" }
          (.not (.equals (.named "Y") (.named "x")))]
      offset := some (.int 1) }

theorem sql_alike_pages :
    talkativePage.body.Alike tersePage.body ∧
      ∃ text, Statement.sql {} (.select talkativePage) = .ok text ∧
        Statement.sql {} (.select tersePage) = .ok text := by
  have hnames : SameNames ["x", "y"] ["Y", "x"] := by
    have hlower : ["Y", "x"].map Text.lower = ["y", "x"] ∧ ["x", "y"].map Text.lower = ["x", "y"] :=
      by decide +kernel
    intro n
    rw [hlower.1, hlower.2]
    simp [or_comm]
  have halike : talkativePage.body.Alike tersePage.body :=
    ⟨.some ⟨rfl, .some (.unused (.inr rfl) (.join _ _ (.base rfl) (.joined rfl)) (.raw _ _) hnames),
      rfl, rfl, rfl, rfl⟩, rfl, rfl, rfl, rfl⟩
  obtain ⟨text, htext⟩ : ∃ text, Statement.sql {} (.select talkativePage) = .ok text := ⟨_, rfl⟩
  exact ⟨halike, text, htext, (sql_alike halike).symm.trans htext⟩

end Select

end Transact
