import Transact.Proofs.Pagination
import Transact.Proofs.Repetition
import Transact.Proofs.Subquery

/-!
# The subqueries that a compilation runs

`Trace.Runs f must may t`: the computation `t` succeeds only when `f` succeeds on all of `must`, and
it fails only as `f` does on one of `may`. Every part of a compilation is described with it, where
`f` compiles a subquery.

* `Expr.runs_mapM`: an expression is compiled by compiling its subqueries.
* `Scope.compiles_core`: every strategy compiles the subqueries of the conditions, groups and counts
  of a select, and no others than these and those of its order and projections.
-/

set_option autoImplicit false

namespace Transact

open Transact.Expr (subqueriesList)

/-! ## Computations that run subqueries -/

namespace Trace

variable {σ τ α β : Type} {f : σ → Trace τ} {must must' may may' : List σ} {t : Trace α}

/-- The computation succeeds only when `f` succeeds on all of `must`, and it fails only as `f` does
on one of `may`. -/
structure Runs (f : σ → Trace τ) (must may : List σ) (t : Trace α) : Prop where
  ok : ∀ a, t.result = .ok a → ∀ q ∈ must, ∃ b, (f q).result = .ok b
  error : ∀ e, t.result = .error e → ∃ q ∈ may, (f q).result = .error e

namespace Runs

theorem of_isOk (h : ∃ a, t.result = .ok a) : Runs f [] [] t where
  ok _ _ q hq := by simp at hq
  error e he := by
    obtain ⟨a, ha⟩ := h
    simp [ha] at he

theorem of_ok {a : α} (h : t.result = .ok a) : Runs f [] [] t := of_isOk ⟨a, h⟩

theorem self (q : σ) : Runs f [q] [q] (f q) where
  ok b hb q' hq' := by
    obtain rfl := List.mem_singleton.1 hq'
    exact ⟨b, hb⟩
  error e he := ⟨q, List.mem_singleton_self q, he⟩

theorem mono (h : Runs f must may t) (hmust : must' ⊆ must) (hmay : may ⊆ may') :
    Runs f must' may' t where
  ok a ha q hq := h.ok a ha q (hmust hq)
  error e he := by
    obtain ⟨q, hq, hfails⟩ := h.error e he
    exact ⟨q, hmay hq, hfails⟩

theorem bind_on {k : α → Trace β} (h : Runs f must may t)
    (hk : ∀ a, t.result = .ok a → Runs f must' may' (k a)) :
    Runs f (must ++ must') (may ++ may') (t >>= k) := by
  constructor
  · intro b hb q hq
    obtain ⟨a, ha, hb⟩ := bind_eq_ok.1 hb
    rcases List.mem_append.1 hq with hq | hq
    · exact h.ok a ha q hq
    · exact (hk a ha).ok b hb q hq
  · intro e he
    cases ha : t.result with
    | error e' =>
      rw [bind_error ha] at he
      obtain rfl := Except.error.inj he
      obtain ⟨q, hq, hfails⟩ := h.error _ ha
      exact ⟨q, List.mem_append_left _ hq, hfails⟩
    | ok a =>
      rw [bind_ok ha] at he
      obtain ⟨q, hq, hfails⟩ := (hk a ha).error e he
      exact ⟨q, List.mem_append_right _ hq, hfails⟩

theorem bind {k : α → Trace β} (h : Runs f must may t) (hk : ∀ a, Runs f must' may' (k a)) :
    Runs f (must ++ must') (may ++ may') (t >>= k) := h.bind_on fun a _ => hk a

theorem congr {t' : Trace α} (h : Runs f must may t) (he : t'.result = t.result) :
    Runs f must may t' where
  ok a ha := h.ok a (he ▸ ha)
  error e hfails := h.error e (he ▸ hfails)

theorem bind_of_ok {k : α → Trace β} {a : α} (h : t.result = .ok a) (hk : Runs f must may (k a)) :
    Runs f must may (t >>= k) := hk.congr (by rw [bind_ok h])

theorem bind_pure {g : α → β} (h : Runs f must may t) :
    Runs f must may (t >>= fun a => Pure.pure (g a)) := by
  have := h.bind fun a => of_ok (f := f) (pure_result (g a))
  rwa [List.append_nil, List.append_nil] at this

theorem isOk_iff (h : Runs f must may t) (hmay : may ⊆ must) :
    (∃ a, t.result = .ok a) ↔ ∀ q ∈ must, ∃ b, (f q).result = .ok b := by
  constructor
  · rintro ⟨a, ha⟩
    exact h.ok a ha
  · intro hq
    cases ha : t.result with
    | ok a => exact ⟨a, rfl⟩
    | error e =>
      obtain ⟨q, hmem, hfails⟩ := h.error e ha
      obtain ⟨b, hb⟩ := hq q (hmay hmem)
      rw [hb] at hfails
      cases hfails

end Runs

end Trace

open Trace (Runs)

/-! ## Expressions -/

namespace Expr

variable {σ τ : Type} (f : σ → Trace τ)

theorem subqueriesList_append : ∀ es es' : List (Expr σ),
    subqueriesList (es ++ es') = subqueriesList es ++ subqueriesList es'
  | [], _ => rfl
  | e :: es, es' => by simp [subqueriesList_append es es']

theorem subqueriesList_subset {es : List (Expr σ)} {qs : List σ}
    (h : ∀ e ∈ es, e.subqueries ⊆ qs) : subqueriesList es ⊆ qs := by
  intro q hq
  obtain ⟨e, he, hq⟩ := mem_subqueriesList.1 hq
  exact h e he hq

theorem subset_subqueriesList {es : List (Expr σ)} {e : Expr σ} (h : e ∈ es) :
    e.subqueries ⊆ subqueriesList es := fun _ hq => mem_subqueriesList.2 ⟨e, h, hq⟩

theorem subqueriesList_mono {es es' : List (Expr σ)} (h : es ⊆ es') :
    subqueriesList es ⊆ subqueriesList es' :=
  subqueriesList_subset fun _ he => subset_subqueriesList (h he)

theorem subqueriesList_map_subset {g : Expr σ → Expr σ} (es : List (Expr σ))
    (h : ∀ e, (g e).subqueries ⊆ e.subqueries) :
    subqueriesList (es.map g) ⊆ subqueriesList es := by
  refine subqueriesList_subset fun e he => ?_
  obtain ⟨e', he', rfl⟩ := List.mem_map.1 he
  exact List.Subset.trans (h e') (subset_subqueriesList he')

mutual

/-- **An expression is compiled** by compiling its subqueries. -/
theorem runs_mapM : ∀ e : Expr σ, Runs f e.subqueries e.subqueries (e.mapM f)
  | .column _ | .wildcard _ | .literal _ | .typed _ _ | .raw _ => by
    rw [mapM]
    exact .of_ok rfl
  | .aggregate _ args _ | .call _ args => by
    rw [mapM]
    exact (runs_mapListM args).bind_pure
  | .alias e _ | .distinct e | .not e | .isNull e _ | .grouping e | .caseSensitive e => by
    rw [mapM]
    exact (runs_mapM e).bind_pure
  | .binary l _ r => by
    rw [mapM]
    exact (runs_mapM l).bind fun _ => (runs_mapM r).bind_pure
  | .inList e list _ => by
    rw [mapM]
    exact (runs_mapM e).bind fun _ => (runs_mapListM list).bind_pure
  | .inSubquery e q _ => by
    rw [mapM]
    exact (runs_mapM e).bind fun _ => (Runs.self q).bind_pure

theorem runs_mapListM : ∀ es : List (Expr σ),
    Runs f (subqueriesList es) (subqueriesList es) (mapListM f es)
  | [] => by
    rw [mapListM]
    exact .of_ok rfl
  | e :: es => by
    rw [mapListM]
    exact (runs_mapM e).bind fun _ => (runs_mapListM es).bind_pure

end

end Expr

/-! ## The operations of a scope -/

section

variable {σ : Type}

/-- The conditions of the joins that have one: a cross join and a joined text have none. -/
def Source.usedConditions : Source σ → List (Expr σ)
  | .table _ => []
  | .join kind left right condition =>
    usedConditions left ++ usedConditions right ++
      if kind = .cross ∨ kind = .fragment then [] else condition.toList
  | .raw _ => []

/-- What a core needs besides its projections: its conditions and groups. -/
def Core.needed (c : Core σ) : List (Expr σ) :=
  c.wheres ++ c.groups ++ c.having.toList ++ c.source.toList.flatMap Source.usedConditions

/-- What a level with this first core needs besides its projections. -/
def SelectBody.needed (s : SelectBody σ) (c : Core σ) : List (Expr σ) :=
  c.needed ++ s.orders.map (·.expr) ++ s.limit.toList ++ s.offset.toList

theorem Source.usedConditions_subset : ∀ s : Source σ, s.usedConditions ⊆ s.conditions
  | .table _ => List.Subset.refl _
  | .raw _ => List.Subset.refl _
  | .join kind left right condition => by
    have hleft := usedConditions_subset left
    have hright := usedConditions_subset right
    intro e he
    simp only [usedConditions, conditions, List.mem_append] at he ⊢
    rcases he with (he | he) | he
    · exact .inl (.inl (hleft he))
    · exact .inl (.inr (hright he))
    · split at he
      · simp at he
      · exact .inr he

theorem Source.usedConditions_correlated (s : Source σ) :
    s.correlated.1.usedConditions = s.usedConditions := by
  unfold Source.correlated
  split
  · split <;> rfl
  · rfl

theorem Core.needed_correlated (c : Core σ) :
    ({ c with source := c.source.map fun s => s.correlated.1 } : Core σ).needed = c.needed := by
  unfold needed
  cases c.source with
  | none => rfl
  | some source => simp [Source.usedConditions_correlated]

namespace Scope

variable (sc : Scope σ)

theorem runs_expr (e : Expr σ) : Runs sc.subquery e.subqueries e.subqueries (sc.expr e) :=
  e.runs_mapM sc.subquery

theorem runs_exprs (es : List (Expr σ)) :
    Runs sc.subquery (subqueriesList es) (subqueriesList es) (sc.exprs es) :=
  Expr.runs_mapListM sc.subquery es

theorem runs_expr? (e : Option (Expr σ)) :
    Runs sc.subquery (subqueriesList e.toList) (subqueriesList e.toList) (sc.expr? e) := by
  cases e with
  | none => exact .of_ok rfl
  | some e =>
    simp only [Option.toList_some, subqueriesList, List.append_nil]
    exact (sc.runs_expr e).bind_pure

theorem runs_keys : ∀ ks : List (SortKey σ), Runs sc.subquery
    (subqueriesList (ks.map (·.expr))) (subqueriesList (ks.map (·.expr))) (sc.keys ks)
  | [] => .of_ok rfl
  | k :: ks => (sc.runs_expr k.expr).bind fun _ => (runs_keys ks).bind_pure

theorem runs_window (ranking : Ranking) (partition : List (Expr σ)) (orders : List (SortKey σ)) :
    Runs sc.subquery (subqueriesList (partition ++ orders.map (·.expr)))
      (subqueriesList (partition ++ orders.map (·.expr)))
      (sc.window ranking partition orders) := by
  rw [Expr.subqueriesList_append]
  exact (sc.runs_exprs partition).bind fun _ => (sc.runs_keys orders).bind_pure

theorem runs_mapM_source : ∀ s : Source σ, Runs sc.subquery (subqueriesList s.usedConditions)
    (subqueriesList s.usedConditions) (s.mapM sc.subquery)
  | .table _ | .raw _ => by
    rw [Source.mapM]
    exact .of_ok rfl
  | .join kind left right condition => by
    have hleft := runs_mapM_source left
    have hright := runs_mapM_source right
    simp only [Source.mapM, Source.usedConditions, Expr.subqueriesList_append, List.append_assoc]
    refine hleft.bind fun left' => hright.bind fun right' => ?_
    cases kind <;> cases condition <;> simp only [reduceCtorEq, or_self, or_true, true_or, if_true,
      if_false, Option.toList_none, Option.toList_some, subqueriesList, List.append_nil]
    case inner.some e | leftOuter.some e | rightOuter.some e | fullOuter.some e =>
      exact (sc.runs_expr e).bind_pure
    all_goals exact .of_ok rfl

theorem runs_rows (source : Option (Source σ)) (lock : Option Lock) :
    Runs sc.subquery (subqueriesList (source.toList.flatMap Source.usedConditions))
      (subqueriesList (source.toList.flatMap Source.usedConditions)) (sc.rows source lock) := by
  cases source with
  | none => exact .of_ok rfl
  | some source =>
    simp only [Option.toList_some, List.flatMap_cons, List.flatMap_nil, List.append_nil]
    exact (sc.runs_mapM_source source).bind_pure

theorem runs_frame (s : SelectBody σ) (c : Core σ) (groups : List (Expr σ)) :
    Runs sc.subquery (subqueriesList { c with groups := groups }.needed)
      (subqueriesList { c with groups := groups }.needed) (sc.frame s c groups) := by
  have h := (sc.runs_rows c.source s.lock).bind fun rows => (sc.runs_exprs c.wheres).bind
    fun filters => (sc.runs_exprs groups).bind fun groups => (sc.runs_expr? c.having).bind_pure
      (g := fun having => ({ rows, filters, groups, having } : QueryBody Query))
  refine h.mono ?_ ?_ <;> intro q <;> simp only [Core.needed, Expr.subqueriesList_append,
    List.mem_append] <;> grind

theorem runs_frame_groups (s : SelectBody σ) (c : Core σ) :
    Runs sc.subquery (subqueriesList c.needed) (subqueriesList c.needed)
      (sc.frame s c c.groups) :=
  sc.runs_frame s c c.groups

theorem subqueriesList_ones (ps : List (Expr σ)) (name : String) :
    subqueriesList (ps.map fun p => if p.isLiteralOne then .alias p name else p) =
      subqueriesList ps := by
  induction ps with
  | nil => rfl
  | cons p ps ih =>
    simp only [List.map_cons, subqueriesList, ih]
    split <;> simp

theorem runs_projections (ps : List (Expr σ)) :
    Runs sc.subquery (subqueriesList ps) (subqueriesList ps) (sc.projections ps) := by
  have h := sc.runs_exprs (ps.map fun p => if p.isLiteralOne then .alias p sc.names.one else p)
  rw [subqueriesList_ones] at h
  exact h.bind_pure

/-! ## Orders without repetitions -/

/-- An order without repetitions has no other keys. -/
theorem distinctKeys_subset {ks ks' : List (SortKey σ)}
    (h : (sc.distinctKeys ks).result = .ok ks') : ks' ⊆ ks :=
  (unrepeated_distinctKeys h).sublist.subset

theorem runs_labelled : ∀ ks : List (SortKey σ), Runs sc.subquery
    (subqueriesList (ks.map (·.expr))) (subqueriesList (ks.map (·.expr))) (sc.labelled ks)
  | [] => .of_ok rfl
  | k :: ks => (sc.runs_expr k.expr).bind fun _ => (runs_labelled ks).bind_pure

theorem runs_distinctKeys (ks : List (SortKey σ)) : Runs sc.subquery
    (subqueriesList (ks.map (·.expr))) (subqueriesList (ks.map (·.expr))) (sc.distinctKeys ks) :=
  (sc.runs_labelled ks).bind_pure

end Scope

/-! ## What the strategies compile -/

theorem subqueriesList_pageKeys (orders : List (SortKey σ)) (base : Option TableRef) :
    subqueriesList ((pageKeys orders base).map (·.expr)) ⊆
      subqueriesList (orders.map (·.expr)) := by
  unfold pageKeys
  split
  · exact List.Subset.refl _
  all_goals simp [Expr.asc]

theorem SelectBody.subqueriesList_countLimit? (s : SelectBody σ) :
    subqueriesList s.limit.toList ⊆ subqueriesList s.countLimit?.toList ∧
      subqueriesList s.countLimit?.toList ⊆ subqueriesList (s.limit.toList ++ s.offset.toList) := by
  have hplus : ∀ a b : Expr σ, (a.plus b).subqueries = a.subqueries ++ b.subqueries := by
    intro a b
    unfold Expr.plus
    split <;> simp [Expr.int]
  unfold countLimit?
  cases s.limit <;> cases s.offset <;> simp [hplus]

/-- A limit that is dropped because it stands for none has no subqueries. -/
theorem Expr.subqueriesList_bounded [BEq σ] (limit : Option (Expr σ)) :
    subqueriesList (limit.filter fun e => !(e == .int unboundedLimit)).toList =
      subqueriesList limit.toList := by
  cases limit with
  | none => rfl
  | some limit =>
    by_cases hlimit : (limit == .int unboundedLimit) = true
    · have : limit.subqueries = [] := by
        cases limit <;> first | rfl | cases hlimit
      simp [Option.filter, hlimit, this]
    · simp [Option.filter, hlimit]

theorem Core.subqueries_identity (c : Core σ) (p : Expr σ) :
    (c.identity p).subqueries ⊆ p.subqueries := by
  have hself : p.unaliased.subqueries ⊆ p.subqueries := by
    rw [Expr.subqueries_unaliased]
    exact List.Subset.refl _
  unfold identity
  split
  · rename_i table base _ _
    split
    · cases base.keyColumn? with
      | none => exact hself
      | some key => simp
    · exact hself
  · exact hself

theorem Expr.subqueries_outerName (p : Expr σ) : p.outerName.subqueries ⊆ p.subqueries := by
  cases p <;> simp [outerName, named, star]

theorem Shape.subqueries_rankable? {sh : Shape} {base : Option TableRef} {p e : Expr σ}
    (h : sh.rankable? base p = some e) : e.subqueries ⊆ p.subqueries := by
  have hsub : ((if sh.hasCall then p.unmarked else p.bare).unaliased).subqueries ⊆
      p.subqueries := by
    rw [Expr.subqueries_unaliased]
    split
    · rw [Expr.subqueries_unmarked]
      exact List.Subset.refl _
    · exact p.subqueries_bare_subset
  unfold rankable? at h
  simp only at h
  split at h
  · split at h
    · obtain ⟨key, -, rfl⟩ := Option.map_eq_some_iff.1 h
      simp
    · cases h
  · cases h
  · obtain rfl := Option.some.inj h
    exact hsub

/-- Keys that are added one projection at a time have no subqueries but those of the projections
and those of the keys before. -/
theorem SortKey.subqueriesList_foldl {f : List (SortKey σ) → Expr σ → List (SortKey σ)}
    (hf : ∀ keys p, subqueriesList ((f keys p).map (·.expr)) ⊆
      subqueriesList (keys.map (·.expr)) ++ p.subqueries) (ps : List (Expr σ)) :
    ∀ keys, subqueriesList ((ps.foldl f keys).map (·.expr)) ⊆
      subqueriesList (keys.map (·.expr) ++ ps) := by
  induction ps with
  | nil => simp
  | cons p ps ih =>
    intro keys q hq
    have hq := ih (f keys p) hq
    rw [Expr.subqueriesList_append, List.mem_append] at hq ⊢
    rcases hq with hq | hq
    · rcases List.mem_append.1 (hf keys p hq) with hq | hq
      · exact .inl hq
      · exact .inr (List.mem_append_left _ hq)
    · exact .inr (List.mem_append_right _ hq)

/-- The keys of a dense rank are those of the order and those of the projections. -/
theorem Shape.denseKeys_result [BEq σ] (sh : Shape) (s : SelectBody σ) (c : Core σ) :
    ∃ keys, (sh.denseKeys s c).result = .ok keys ∧ subqueriesList (keys.map (·.expr)) ⊆
      subqueriesList (s.orders.map (·.expr) ++ c.projections) := by
  unfold denseKeys
  simp only
  split
  · refine ⟨_, Trace.bind_eq_ok.2 ⟨(), rfl, s.rowKeys_result c⟩, ?_⟩
    rw [Expr.subqueriesList_append]
    exact List.subset_append_of_subset_left _ (subqueriesList_pageKeys _ _)
  · refine ⟨_, rfl, SortKey.subqueriesList_foldl ?_ c.projections s.orders⟩
    intro keys p q hq
    split at hq
    · rename_i e he
      split at hq
      · exact List.mem_append_left _ hq
      · rw [List.map_append, Expr.subqueriesList_append, List.mem_append] at hq
        rcases hq with hq | hq
        · exact List.mem_append_left _ hq
        · have : q ∈ e.subqueries := by simpa [Expr.asc] using hq
          exact List.mem_append_right _ (subqueries_rankable? he this)
    · exact List.mem_append_left _ hq

theorem Expr.mem_columnsForDistinct [BEq σ] {e : Expr σ} : ∀ (keys : List (SortKey σ))
    (columns : List (Expr σ)), (e ∈ columns → e ∈ columnsForDistinct columns keys) ∧
      (e ∈ columnsForDistinct columns keys → e ∈ columns ∨ e ∈ keys.map (·.expr))
  | [], columns => ⟨id, .inl⟩
  | k :: keys, columns => by
    obtain ⟨hin, hout⟩ := mem_columnsForDistinct keys
      (if columns.contains k.expr then columns else columns ++ [k.expr])
    refine ⟨fun he => hin ?_, fun he => ?_⟩
    · split
      · exact he
      · exact List.mem_append_left _ he
    · rcases hout he with he | he
      · split at he
        · exact .inl he
        · rcases List.mem_append.1 he with he | he
          · exact .inl he
          · exact .inr (by simp [List.mem_singleton.1 he])
      · exact .inr (List.mem_cons_of_mem _ he)

theorem Shape.subqueriesList_numberedProjections (sh : Shape) (c : Core σ) :
    subqueriesList (sh.numberedProjections c) ⊆ subqueriesList c.projections := by
  unfold numberedProjections
  split
  · exact List.Subset.refl _
  · exact Expr.subqueriesList_map_subset _ Expr.subqueries_bare_subset

theorem Shape.subqueriesList_numberedGroups [BEq σ] (sh : Shape) (s : SelectBody σ) (c : Core σ) :
    subqueriesList c.groups ⊆ subqueriesList (sh.numberedGroups s c) ∧
      subqueriesList (sh.numberedGroups s c) ⊆
        subqueriesList (c.groups ++ c.projections ++ s.orders.map (·.expr)) := by
  have hbare : subqueriesList ((sh.numberedProjections c).map fun p => p.bare.unaliased) ⊆
      subqueriesList c.projections := by
    refine List.Subset.trans (Expr.subqueriesList_map_subset _ fun p => ?_)
      (sh.subqueriesList_numberedProjections c)
    rw [Expr.subqueries_unaliased]
    exact p.subqueries_bare_subset
  unfold numberedGroups
  split
  · refine ⟨Expr.subqueriesList_subset fun e he => Expr.subset_subqueriesList ?_,
      Expr.subqueriesList_subset fun e he => ?_⟩
    · refine (Expr.mem_columnsForDistinct _ _).1 ?_
      rw [if_neg (by simp [List.ne_nil_of_mem he])]
      exact he
    · rcases (Expr.mem_columnsForDistinct _ _).2 he with he | he
      · split at he
        · intro q hq
          have := hbare (Expr.subset_subqueriesList he hq)
          simp only [Expr.subqueriesList_append, List.mem_append]
          exact .inl (.inr this)
        · exact Expr.subset_subqueriesList (by simp [he])
      · exact Expr.subset_subqueriesList (List.mem_append_right _ he)
  · refine ⟨List.Subset.refl _, Expr.subqueriesList_mono ?_⟩
    intro e he
    simp [he]

/-- A plain select projects, groups and sorts by nothing but its own expressions, and its groups are
all kept. -/
theorem Shape.subqueries_plainArrangement [BEq σ] (s : SelectBody σ) (c : Core σ) :
    let arranged := (Shape.of s c).plainArrangement s c
    subqueriesList arranged.projections ⊆ subqueriesList c.projections ∧
      subqueriesList c.groups ⊆ subqueriesList arranged.groups ∧
      subqueriesList arranged.groups ⊆ subqueriesList (c.groups ++ c.projections) ∧
      subqueriesList (arranged.orders.map (·.expr)) ⊆ subqueriesList (s.orders.map (·.expr)) := by
  have hbare : subqueriesList (c.projections.map Expr.bare) ⊆ subqueriesList c.projections :=
    Expr.subqueriesList_map_subset _ Expr.subqueries_bare_subset
  have hleft := Expr.subqueriesList_mono (List.subset_append_left c.groups c.projections)
  unfold plainArrangement
  by_cases hlimit : (Shape.of s c).groupsToLimit = true
  · have hgroups : c.groups = [] := by
      have : (!(!c.groups.isEmpty)) = true := by
        simp only [Shape.groupsToLimit, Bool.and_eq_true] at hlimit
        exact hlimit.1.2
      simpa using this
    rw [if_pos hlimit, hgroups, List.nil_append]
    refine ⟨hbare, List.nil_subset _, ?_, ?_⟩
    · refine List.Subset.trans (Expr.subqueriesList_map_subset _ fun p => ?_) hbare
      rw [Expr.subqueries_unaliased]
      exact List.Subset.refl _
    · rw [List.map_map]
      refine Expr.subqueriesList_subset fun e he => ?_
      obtain ⟨k, hk, rfl⟩ := List.mem_map.1 he
      refine List.Subset.trans ?_ (Expr.subset_subqueriesList (List.mem_map_of_mem hk))
      simp only [Function.comp, SortKey.extreme, Expr.aggregateOf, Expr.subqueries,
        Expr.subqueriesList, List.append_nil, Expr.subqueries_unaliased]
      exact k.expr.subqueries_bare_subset
  · rw [if_neg hlimit]
    by_cases hwhole : (Shape.of s c).limitsWholeTable = true
    · rw [if_pos hwhole]
      exact ⟨hbare, List.Subset.refl _, hleft, List.Subset.refl _⟩
    · rw [if_neg hwhole]
      exact ⟨List.Subset.refl _, List.Subset.refl _, hleft, List.Subset.refl _⟩

/-! ## Strategies -/

namespace Scope

variable (sc : Scope σ) (s : SelectBody σ) (c : Core σ)

/-- The computation compiles the subqueries of the conditions, groups and counts of a select, and no
others than these and those of its order and projections. -/
def Compiles {α : Type} (t : Trace α) : Prop :=
  Runs sc.subquery (subqueriesList (c.needed ++ s.limit.toList ++ s.offset.toList))
    (subqueriesList (s.needed c ++ c.projections)) t

theorem compiles_count : sc.Compiles s c (sc.count s c) := by
  unfold Compiles count
  refine Runs.bind_of_ok (s.rowKeys_result c) ?_
  refine Runs.mono ((sc.runs_expr? s.countLimit?).bind fun top =>
    (sc.runs_window .rowNumber [] _).bind fun window => (sc.runs_frame_groups s c).bind
      fun frame => (sc.runs_keys s.orders).bind fun orders => (sc.runs_expr? s.offset).bind_pure)
    ?_ ?_
  · have htop := s.subqueriesList_countLimit?.1
    intro q hq
    simp only [Expr.subqueriesList_append, List.mem_append] at hq ⊢
    have := @htop q
    grind
  · have htop := s.subqueriesList_countLimit?.2
    have hkeys := subqueriesList_pageKeys s.orders c.baseTable?
    intro q hq
    have := @htop q
    have := @hkeys q
    simp only [SelectBody.needed, List.nil_append, Expr.subqueriesList_append,
      List.mem_append] at *
    grind

theorem compiles_distinctOrder : sc.Compiles s c (sc.distinctOrder s c) := by
  have hunmarked : subqueriesList (c.projections.map Expr.unmarked) ⊆
      subqueriesList c.projections :=
    Expr.subqueriesList_map_subset _ fun p => by
      rw [p.subqueries_unmarked]
      exact List.Subset.refl _
  have hidentity := List.Subset.trans
    (Expr.subqueriesList_map_subset (c.projections.map Expr.unmarked) c.subqueries_identity)
    hunmarked
  have houter := List.Subset.trans
    (Expr.subqueriesList_map_subset (c.projections.map Expr.unmarked) Expr.subqueries_outerName)
    hunmarked
  unfold Compiles distinctOrder
  refine Runs.mono ((sc.runs_exprs (c.projections.map Expr.unmarked)).bind fun columns =>
    (sc.runs_window .denseRank [] s.orders).bind fun rank =>
      (sc.runs_window .rowNumber _ s.orders).bind fun duplicate =>
        (sc.runs_frame_groups s c).bind fun frame => (sc.runs_exprs _).bind fun outer =>
          (sc.runs_expr? s.limit).bind fun top => (sc.runs_expr? s.offset).bind fun offset =>
            .of_isOk (by cases offset <;> exact ⟨_, rfl⟩)) ?_ ?_
  · intro q hq
    simp only [Expr.subqueriesList_append, List.mem_append] at hq ⊢
    grind
  · intro q hq
    have := @hunmarked q
    have := @hidentity q
    have := @houter q
    simp only [SelectBody.needed, List.nil_append, List.append_nil, Expr.subqueriesList_append,
      List.mem_append] at *
    grind

/-- The outer query of a page refers to what the select projects. -/
theorem runs_outerColumns {sh : Shape}
    (hkey : sh.keyOnly = true → ∃ column, c.projections = [.column column]) :
    Runs sc.subquery [] (subqueriesList c.projections) (sc.outerColumns sh c) := by
  have hreference : ∀ p : Expr σ, (sc.outerReference c p).subqueries ⊆ p.subqueries := by
    intro p
    unfold outerReference
    split
    · simp [Expr.qualified]
    · rw [Expr.requalify, Expr.subqueries_rename, Expr.subqueries_unmarked]
      exact List.Subset.refl _
  have hnamed : ∀ names : List String, subqueriesList (names.map (Expr.named (σ := σ))) = [] := by
    intro names
    induction names with
    | nil => rfl
    | cons name names ih => simpa [Expr.named] using ih
  unfold outerColumns outerProjections
  split
  · exact Runs.bind_of_ok rfl ((sc.runs_exprs _).mono (List.nil_subset _)
      (Expr.subqueriesList_map_subset _ hreference))
  · split
    · refine Runs.bind_of_ok rfl ((sc.runs_exprs _).mono (List.nil_subset _) ?_)
      rw [hnamed]
      exact List.nil_subset _
    · split
      · rename_i h
        obtain ⟨column, hps⟩ := hkey h
        rw [hps]
        refine Runs.bind_of_ok rfl ((sc.runs_exprs _).mono (List.nil_subset _) ?_)
        simp [Expr.qualified]
      · refine Runs.bind_of_ok rfl ((sc.runs_exprs _).mono (List.nil_subset _) ?_)
        simp [Expr.allOf]

theorem compiles_page [BEq σ] (ranking : Ranking) {keys : List (SortKey σ)}
    (hkeys : subqueriesList (keys.map (·.expr)) ⊆
      subqueriesList (s.orders.map (·.expr) ++ c.projections))
    (g : Option (Expr Query) → List (Expr Query) → Window Query → List (Column Query) →
      QueryBody Query → Option (Expr Query) → Query) :
    sc.Compiles s c (do
      let top ← sc.expr? s.boundedLimit?
      let outer ← sc.outerColumns (Shape.of s c) c
      let window ← sc.window ranking [] keys
      let columns ← sc.projections ((Shape.of s c).numberedProjections c)
      let frame ← sc.frame s c ((Shape.of s c).numberedGroups s c)
      let offset ← sc.expr? s.offset
      pure (g top outer window columns frame offset)) := by
  have hcolumns := (Shape.of s c).subqueriesList_numberedProjections c
  have hgroups := (Shape.of s c).subqueriesList_numberedGroups s c
  unfold Compiles
  refine Runs.mono ((sc.runs_expr? s.boundedLimit?).bind fun top =>
    (sc.runs_outerColumns c Core.keyOnly_iff).bind fun outer =>
      (sc.runs_window ranking [] keys).bind fun window => (sc.runs_projections _).bind
        fun columns => (sc.runs_frame s c _).bind fun frame => (sc.runs_expr? s.offset).bind_pure)
    ?_ ?_
  · intro q hq
    have := @hgroups.1 q
    simp only [Core.needed, SelectBody.boundedLimit?, Expr.subqueriesList_bounded,
      Expr.subqueriesList_append, List.mem_append] at *
    grind
  · intro q hq
    have := @hkeys q
    have := @hcolumns q
    have := @hgroups.2 q
    simp only [SelectBody.needed, Core.needed, SelectBody.boundedLimit?,
      Expr.subqueriesList_bounded, List.nil_append, Expr.subqueriesList_append,
      List.mem_append] at *
    grind

theorem compiles_paginated [BEq σ] :
    sc.Compiles s c (sc.paginated (Shape.of s c) s c) := by
  unfold paginated
  by_cases hdistinct : (c.distinct || (Shape.of s c).singleDistinct) = true
  · obtain ⟨keys, hresult, hkeys⟩ := (Shape.of s c).denseKeys_result s c
    simp only [hdistinct, if_true]
    exact Runs.bind_of_ok hresult (sc.compiles_page s c _ hkeys _)
  · simp only [hdistinct]
    refine Runs.bind_of_ok (s.rowKeys_result c) (sc.compiles_page s c _ ?_ _)
    rw [Expr.subqueriesList_append]
    exact List.subset_append_of_subset_left _ (subqueriesList_pageKeys _ _)

theorem compiles_plainSelect [BEq σ] {ps groups : List (Expr σ)} {orders : List (SortKey σ)}
    (hoffset : s.offset = none) (hps : subqueriesList ps ⊆ subqueriesList c.projections)
    (hin : subqueriesList c.groups ⊆ subqueriesList groups)
    (hout : subqueriesList groups ⊆ subqueriesList (c.groups ++ c.projections))
    (horders : subqueriesList (orders.map (·.expr)) ⊆ subqueriesList (s.orders.map (·.expr)))
    (g : Option (Expr Query) → List (Column Query) → QueryBody Query → List (Key Query) → Query) :
    sc.Compiles s c (do
      let top ← sc.expr? s.limit
      let columns ← sc.projections ps
      let frame ← sc.frame s c groups
      let orders ← sc.keys orders
      pure (g top columns frame orders)) := by
  unfold Compiles
  refine Runs.mono ((sc.runs_expr? s.limit).bind fun top => (sc.runs_projections ps).bind
    fun columns => (sc.runs_frame s c groups).bind fun frame => (sc.runs_keys orders).bind_pure)
    ?_ ?_
  · intro q hq
    have := @hin q
    simp only [Core.needed, hoffset, Option.toList_none, List.append_nil,
      Expr.subqueriesList_append, List.mem_append] at *
    grind
  · intro q hq
    have := @hps q
    have := @hout q
    have := @horders q
    simp only [SelectBody.needed, Core.needed, Expr.subqueriesList_append, List.mem_append] at *
    grind

-- a plain query does not write an offset, so there must be none that could fail
theorem compiles_plain [BEq σ] (hoffset : s.offset = none) :
    sc.Compiles s c (sc.plain (Shape.of s c) s c) := by
  obtain ⟨hprojections, hin, hout, horders⟩ := Shape.subqueries_plainArrangement s c
  have hhead : ∀ ps : List (Expr σ), subqueriesList (if ps.head?.any Expr.isMarked then
      ps.modifyHead Expr.unmarked else ps) = subqueriesList ps := by
    intro ps
    cases ps <;> simp [apply_ite subqueriesList, Expr.subqueries_unmarked]
  have hselect : ∀ g, sc.Compiles s c _ := sc.compiles_plainSelect s c hoffset
    (by rw [hhead]; exact hprojections) hin hout horders
  unfold plain
  by_cases hlimit : (Shape.of s c).groupsToLimit = true
  · simp only [hlimit, if_true]
    exact Runs.bind_of_ok rfl (hselect _)
  · simp only [hlimit]
    exact hselect _

/-- **Every strategy** compiles what the select needs. -/
theorem compiles_core [BEq σ] : sc.Compiles s c (sc.core s c) := by
  have hcorrelated := Core.correlated_eq_ok (c := c).2 rfl
  have hshape := Shape.of_correlated s c
  have hneeded := c.needed_correlated
  refine Runs.congr ?_ (sc.core_result s c)
  cases hstrategy : (Shape.of s c).strategy with
  | count => exact sc.compiles_count s c
  | distinctOrder => exact sc.compiles_distinctOrder s c
  | paginated =>
    have h := sc.compiles_paginated s { c with source := c.source.map fun s => s.correlated.1 }
    rw [hshape] at h
    simp only [Compiles, SelectBody.needed, hneeded] at h
    exact Runs.bind_of_ok hcorrelated h
  | plain =>
    have hoffset : s.offset = none := by
      have hnone : (Shape.of s c).hasOffset = false := by
        unfold Shape.strategy at hstrategy
        cases hoff : (Shape.of s c).hasOffset with
        | false => rfl
        | true => simp [hoff, ite_eq_iff] at hstrategy
      exact Option.not_isSome_iff_eq_none.1 (by simpa [Shape.of] using hnone)
    have h := sc.compiles_plain s { c with source := c.source.map fun s => s.correlated.1 } hoffset
    rw [hshape] at h
    simp only [Compiles, SelectBody.needed, hneeded] at h
    exact Runs.bind_of_ok hcorrelated h

end Scope

end

end Transact
