import Transact.Proofs.CompiledSource
import Transact.Proofs.Layers

/-!
# Dense ranks tell duplicates

A page of distinct rows is taken by a dense rank, so two rows must share a rank exactly when they
are duplicates. `Evaluation` is what is asked of a meaning of expressions for that.

* `Shape.mem_denseKeys`, `Shape.exists_denseKeys`: every key of the dense rank is from the order or
  a projection, and every projection has a key.
* `Evaluation.agree_of_isCovered`: rows that agree on the projections agree on a covered expression.
* `Evaluation.agree_denseKeys_iff`: rows agree on the keys exactly when they agree on the
  projections.
* `Select.denseRank_tells_duplicates`: so a page of distinct rows ranks them, if there is a
  projection at all (`Select.denseRank_not_tells_duplicates`).
-/

set_option autoImplicit false

namespace Transact

section

variable {σ : Type}

/-! ## Projections without their aliases and marks -/

namespace Expr

/-- An aggregate that is not marked is a call. -/
theorem isMarked_or_isCall {fn : AggregateFn} {args : List (Expr σ)} {d : Bool} :
    ∀ {p : Expr σ}, p.unmarked.unaliased = .aggregate fn args d →
      p.isMarked = true ∨ p.isCall = true
  | .alias e _, h => isMarked_or_isCall (p := e) h
  | .distinct _, _ => .inl rfl
  | .aggregate _ _ _, _ => .inr rfl
  | .column _, h | .wildcard _, h | .literal _, h | .typed _ _, h | .call _ _, h
  | .binary _ _ _, h | .not _, h | .isNull _ _, h | .inList _ _ _, h | .inSubquery _ _ _, h
  | .grouping _, h | .caseSensitive _, h | .raw _, h => by cases h

theorem wildcardTable?_unaliased (e : Expr σ) : e.unaliased.wildcardTable? = e.wildcardTable? := by
  induction e using unaliased.induct with
  | case1 e _ ih => exact ih
  | case2 e hother => rw [unaliased.eq_2 _ hother]

theorem wildcardTable?_eq {table : Option String} {p : Expr σ}
    (h : p.unmarked.unaliased = .wildcard table) : p.wildcardTable? = table := by
  rw [← p.wildcardTable?_unmarked, ← wildcardTable?_unaliased, h]
  rfl

end Expr

/-- The dense rank has a key for every projection: all columns are projected only of the base table,
whose primary key is known, and no aggregate is marked. -/
structure Core.Rankable (c : Core σ) : Prop where
  wildcards : ∀ p ∈ c.projections, ∀ table, p.unmarked.unaliased = .wildcard table →
    ∃ base key, c.baseTable? = some base ∧ base.keyColumn? = some key ∧
      table = some base.qualifier
  aggregates : ∀ p ∈ c.projections, p.isMarked = true →
    ∀ fn args d, p.unmarked.unaliased ≠ .aggregate fn args d

/-! ## The keys -/

namespace Shape

variable [BEq σ]

/-- The keys with one more projection among them. -/
def withProjection (sh : Shape) (base : Option TableRef) (keys : List (SortKey σ)) (p : Expr σ) :
    List (SortKey σ) :=
  match sh.rankable? base p with
  | some e => if keys.any (·.expr == e) then keys else keys ++ [e.asc]
  | none => keys

variable {sh : Shape} {base : Option TableRef} {keys : List (SortKey σ)} {p e : Expr σ}

theorem mem_withProjection {k : SortKey σ} (h : k ∈ sh.withProjection base keys p) :
    k ∈ keys ∨ sh.rankable? base p = some k.expr := by
  unfold withProjection at h
  split at h
  · rename_i e he
    split at h
    · exact .inl h
    · rcases List.mem_append.1 h with h | h
      · exact .inl h
      · rw [List.mem_singleton.1 h]
        exact .inr he
  · exact .inl h

theorem subset_withProjection (sh : Shape) (base : Option TableRef) (keys : List (SortKey σ))
    (p : Expr σ) : keys ⊆ sh.withProjection base keys p := by
  intro k hk
  unfold withProjection
  split
  · split
    · exact hk
    · exact List.mem_append_left _ hk
  · exact hk

theorem exists_withProjection (keys : List (SortKey σ)) (h : sh.rankable? base p = some e) :
    ∃ k ∈ sh.withProjection base keys p, k.expr = e ∨ (k.expr == e) = true := by
  rw [withProjection, h]
  by_cases hany : keys.any (·.expr == e) = true
  · obtain ⟨k, hk, hsame⟩ := List.any_eq_true.1 hany
    refine ⟨k, ?_, .inr hsame⟩
    simpa only [hany, if_true] using hk
  · refine ⟨e.asc, ?_, .inl rfl⟩
    simp [hany]

/-- **A key of the dense rank** is from the order or a projection. -/
theorem mem_denseKeys {k : SortKey σ} {ps : List (Expr σ)}
    (h : k ∈ ps.foldl (sh.withProjection base) keys) :
    k ∈ keys ∨ ∃ p ∈ ps, sh.rankable? base p = some k.expr := by
  induction ps generalizing keys with
  | nil => exact .inl h
  | cons p ps ih =>
    rcases ih h with h | ⟨p', hp', he⟩
    · rcases mem_withProjection h with h | he
      · exact .inl h
      · exact .inr ⟨p, List.mem_cons_self, he⟩
    · exact .inr ⟨p', List.mem_cons_of_mem _ hp', he⟩

theorem subset_foldl (sh : Shape) (base : Option TableRef) : ∀ (ps : List (Expr σ))
    (keys : List (SortKey σ)), keys ⊆ ps.foldl (sh.withProjection base) keys
  | [], _ => List.Subset.refl _
  | p :: ps, keys =>
    List.Subset.trans (sh.subset_withProjection base keys p) (subset_foldl sh base ps _)

/-- **A projection that can be ranked** has a key of its own, or an equal one. -/
theorem exists_denseKeys (keys : List (SortKey σ)) {ps : List (Expr σ)} (hp : p ∈ ps)
    (he : sh.rankable? base p = some e) :
    ∃ k ∈ ps.foldl (sh.withProjection base) keys, k.expr = e ∨ (k.expr == e) = true := by
  induction ps generalizing keys with
  | nil => cases hp
  | cons p' ps ih =>
    rcases List.mem_cons.1 hp with rfl | hp
    · obtain ⟨k, hk, hsame⟩ := exists_withProjection keys he
      exact ⟨k, sh.subset_foldl base ps _ hk, hsame⟩
    · exact ih _ hp

theorem denseKeys_result_eq (sh : Shape) (s : SelectBody σ) (c : Core σ)
    (h : c.projections.foldl (sh.withProjection c.baseTable?) s.orders ≠ []) :
    (sh.denseKeys s c).result =
      .ok (c.projections.foldl (sh.withProjection c.baseTable?) s.orders) := by
  show (if (c.projections.foldl (sh.withProjection c.baseTable?) s.orders).isEmpty then _
    else pure _ : Trace (List (SortKey σ))).result = _
  rw [if_neg (by simpa using h)]
  rfl

/-- Without keys of its own a dense rank has those of the rows. -/
theorem denseKeys_result_of_nil {s : SelectBody σ} {c : Core σ}
    (h : c.projections.foldl (sh.withProjection c.baseTable?) s.orders = []) :
    (sh.denseKeys s c).result = (s.rowKeys c).result := by
  show (if (c.projections.foldl (sh.withProjection c.baseTable?) s.orders).isEmpty then _
    else pure _ : Trace (List (SortKey σ))).result = _
  rw [h]
  rfl

end Shape

/-! ## Evaluations -/

/-- A meaning of expressions on rows, for the projections and the base table of a core: letter case,
aliases and marks do not matter, the alias of a projection means what it stands for, and the rows of
the base table are told by its primary key. -/
structure Evaluation (c : Core σ) (ρ ν : Type) where
  value : Expr σ → ρ → ν
  value_lowercase : ∀ e, value e.lowercase = value e
  value_alias : ∀ e name, value (.alias e name) = value e
  value_distinct : ∀ e, value (.distinct e) = value e
  value_named : ∀ e name, .alias e name ∈ c.projections → value (.named name) = value e
  eq_of_key : ∀ base key, c.baseTable? = some base → base.keyColumn? = some key →
    ∀ r r', value (.column key) r = value (.column key) r' →
      value (.allOf base.qualifier) r = value (.allOf base.qualifier) r' ∧
        ∀ name, value (.qualified base.qualifier name) r = value (.qualified base.qualifier name) r'

namespace Evaluation

variable {c : Core σ} {ρ ν : Type}

/-- The rows agree on the expression. -/
def Agree (ev : Evaluation c ρ ν) (r r' : ρ) (e : Expr σ) : Prop := ev.value e r = ev.value e r'

/-- Equal expressions mean the same. -/
def Extensional [BEq σ] (ev : Evaluation c ρ ν) : Prop :=
  ∀ e e', (e == e') = true → ev.value e = ev.value e'

variable (ev : Evaluation c ρ ν)

theorem value_unaliased (e : Expr σ) : ev.value e.unaliased = ev.value e := by
  induction e using Expr.unaliased.induct with
  | case1 e name ih => rw [Expr.unaliased, ih, ev.value_alias]
  | case2 e hother => rw [Expr.unaliased.eq_2 _ hother]

theorem value_unmarked (e : Expr σ) : ev.value e.unmarked = ev.value e := by
  induction e using Expr.unmarked.induct with
  | case1 e ih => rw [Expr.unmarked, ih, ev.value_distinct]
  | case2 e name ih => rw [Expr.unmarked, ev.value_alias, ih, ev.value_alias]
  | case3 e hmark hother => rw [Expr.unmarked.eq_3 _ hmark hother]

theorem value_stripped (e : Expr σ) : ev.value e.unmarked.unaliased = ev.value e := by
  rw [value_unaliased, value_unmarked]

theorem value_normalized (e : Expr σ) : ev.value e.normalized = ev.value e := by
  rw [Expr.normalized, ev.value_lowercase, value_stripped]

end Evaluation

/-- Duplicates are told by a projection itself, unless it is all columns of the base table, which
its primary key tells. -/
theorem Core.Rankable.identity_cases {c : Core σ} (hc : c.Rankable) {p : Expr σ}
    (hp : p ∈ c.projections) :
    (∃ base key, c.baseTable? = some base ∧ base.keyColumn? = some key ∧
      p.unmarked.unaliased = .allOf base.qualifier ∧ c.identity p = .column key) ∨
    (∀ table, p.unmarked.unaliased ≠ .wildcard table) ∧ c.identity p = p.unaliased := by
  by_cases hwildcard : ∃ table, p.unmarked.unaliased = .wildcard table
  · obtain ⟨table, htable⟩ := hwildcard
    obtain ⟨base, key, hbase, hkey, rfl⟩ := hc.wildcards p hp table htable
    refine .inl ⟨base, key, hbase, hkey, htable, ?_⟩
    rw [identity, Expr.wildcardTable?_unaliased, Expr.wildcardTable?_eq htable, hbase]
    simp [hkey]
  · have hnone : p.wildcardTable? = none := by
      rw [Option.eq_none_iff_forall_ne_some]
      exact fun table h => hwildcard ⟨_, (Expr.bare_of_wildcardTable? h).2⟩
    refine .inr ⟨fun table h => hwildcard ⟨table, h⟩, ?_⟩
    rw [identity, Expr.wildcardTable?_unaliased, hnone]

namespace Evaluation

variable {c : Core σ} {ρ ν : Type} (ev : Evaluation c ρ ν) {r r' : ρ}

/-- Rows that agree on what tells duplicates of a projection agree on the projection. -/
theorem agree_of_identity (hc : c.Rankable) {p : Expr σ} (hp : p ∈ c.projections)
    (h : ev.Agree r r' (c.identity p)) : ev.Agree r r' p := by
  rcases hc.identity_cases hp with ⟨base, key, hbase, hkey, hall, hidentity⟩ | ⟨-, hidentity⟩
  · rw [hidentity] at h
    have hrow := (ev.eq_of_key base key hbase hkey r r' h).1
    rwa [Agree, ← ev.value_stripped, hall]
  · rwa [hidentity, Agree, ev.value_unaliased] at h

/-- **Rows that agree on the projections** agree on an expression that is covered by them. -/
theorem agree_of_isCovered [BEq σ] (hsame : ev.Extensional) (hc : c.Rankable) {e : Expr σ}
    (he : isCovered c.projections e = true)
    (h : ∀ p ∈ c.projections, ev.Agree r r' (c.identity p)) : ev.Agree r r' e := by
  have hprojected : (c.projections.map Expr.normalized).contains e.normalized = true →
      ev.Agree r r' e := by
    intro hcontains
    obtain ⟨x, hx, hbeq⟩ := List.contains_iff_exists_mem_beq.1 hcontains
    obtain ⟨p, hp, rfl⟩ := List.mem_map.1 hx
    have hvalue := hsame _ _ hbeq
    rw [ev.value_normalized, ev.value_normalized] at hvalue
    rw [Agree, hvalue]
    exact ev.agree_of_identity hc hp (h p hp)
  unfold isCovered at he
  split at he
  · rename_i table name hcolumn
    rcases Bool.or_eq_true_iff.1 he with hwhole | he
    · -- a column of the base table, all of whose columns are projected
      obtain ⟨⟨table', name'⟩, -, hd⟩ := Expr.lowercase_eq_column hcolumn
      obtain ⟨-, rfl⟩ := ColumnRef.mk.inj hd
      obtain ⟨t, ht, rfl⟩ := List.mem_map.1 (List.contains_iff_mem.1 hwhole)
      obtain ⟨p, hp, hpt⟩ := List.mem_filterMap.1 ht
      have hstripped := (Expr.bare_of_wildcardTable? hpt).2
      rcases hc.identity_cases hp with ⟨base, key, hbase, hkey, hall, hidentity⟩ | ⟨hno, -⟩
      · obtain rfl : t = base.qualifier := by
          rw [hall] at hstripped
          cases hstripped
          rfl
        have hagree := h p hp
        rw [hidentity] at hagree
        have hname := (ev.eq_of_key base key hbase hkey r r' hagree).2 name'
        rw [← ev.value_lowercase] at hname
        rw [Agree, ← ev.value_normalized, hcolumn]
        exact hname
      · exact absurd hstripped (hno _)
    · exact hprojected he
  · rename_i name hcolumn
    rcases Bool.or_eq_true_iff.1 he with halias | he
    · -- the alias of a projection
      obtain ⟨a, ha, rfl⟩ := List.mem_map.1 (List.contains_iff_mem.1 halias)
      obtain ⟨p, hp, hpa⟩ := List.mem_filterMap.1 ha
      obtain ⟨x, rfl⟩ : ∃ x, p = .alias x a := by
        cases p <;> cases hpa
        exact ⟨_, rfl⟩
      have hvalue : ev.value e = ev.value (.alias x a) := by
        rw [← ev.value_normalized, hcolumn, ev.value_alias, ← ev.value_named x a hp,
          ← ev.value_lowercase (.named a)]
        rfl
      rw [Agree, hvalue]
      exact ev.agree_of_identity hc hp (h _ hp)
    · exact hprojected he
  · exact hprojected he

/-- A projection is ranked by what tells its duplicates. -/
theorem exists_rankable? [BEq σ] (hc : c.Rankable) (s : SelectBody σ) {p : Expr σ}
    (hp : p ∈ c.projections) :
    ∃ e, (Shape.of s c).rankable? c.baseTable? p = some e ∧
      ev.value e = ev.value (c.identity p) := by
  -- without calls nothing is reduced to less than what is projected
  have hstripped : (if (Shape.of s c).hasCall then p.unmarked else p.bare).unaliased =
      p.unmarked.unaliased := by
    by_cases hcall : (Shape.of s c).hasCall = true
    · rw [if_pos hcall]
    · rw [if_neg hcall, Expr.bare_eq_unmarked_iff.2]
      intro fn args d haggregate
      rw [← Expr.unaliased_unmarked] at haggregate
      rcases Expr.isMarked_or_isCall haggregate with hmarked | hp'
      · exact hc.aggregates p hp hmarked fn args d haggregate
      · exact hcall (List.any_eq_true.2 ⟨p, hp, hp'⟩)
  unfold Shape.rankable?
  simp only [hstripped]
  rcases hc.identity_cases hp with ⟨base, key, hbase, hkey, hall, hidentity⟩ | ⟨hno, hidentity⟩
  · rw [hall, hbase, hidentity]
    exact ⟨.column key, by simp [Expr.allOf, hkey], rfl⟩
  · refine ⟨p.unmarked.unaliased, ?_, ?_⟩
    · generalize p.unmarked.unaliased = e at hno
      cases e with
      | wildcard table => exact absurd rfl (hno table)
      | _ => rfl
    · rw [ev.value_stripped, hidentity, ev.value_unaliased]

/-- **Rows agree on the keys** of the dense rank exactly when they agree on what tells duplicates of
the projections. -/
theorem agree_denseKeys_iff [BEq σ] (hsame : ev.Extensional) (hc : c.Rankable)
    (hprojections : c.projections ≠ []) {s : SelectBody σ}
    (hcovered : ∀ k ∈ s.orders, isCovered c.projections k.expr = true) :
    ∃ keys, ((Shape.of s c).denseKeys s c).result = .ok keys ∧
      ∀ r r', (∀ k ∈ keys, ev.Agree r r' k.expr) ↔
        ∀ p ∈ c.projections, ev.Agree r r' (c.identity p) := by
  have hkey : ∀ p ∈ c.projections, ∃ k ∈ c.projections.foldl
      ((Shape.of s c).withProjection c.baseTable?) s.orders,
        ev.value k.expr = ev.value (c.identity p) := by
    intro p hp
    obtain ⟨e, he, hvalue⟩ := ev.exists_rankable? hc s hp
    obtain ⟨k, hk, heq | hbeq⟩ := Shape.exists_denseKeys s.orders hp he
    · exact ⟨k, hk, by rw [heq, hvalue]⟩
    · exact ⟨k, hk, by rw [hsame _ _ hbeq, hvalue]⟩
  refine ⟨_, Shape.denseKeys_result_eq _ s c ?_, fun r r' => ⟨fun h p hp => ?_, fun h k hk => ?_⟩⟩
  · obtain ⟨p, hp⟩ := List.exists_mem_of_ne_nil _ hprojections
    obtain ⟨k, hk, -⟩ := hkey p hp
    exact List.ne_nil_of_mem hk
  · obtain ⟨k, hk, hvalue⟩ := hkey p hp
    rw [Agree, ← hvalue]
    exact h k hk
  · rcases Shape.mem_denseKeys hk with hk | ⟨p, hp, he⟩
    · exact ev.agree_of_isCovered hsame hc (hcovered k hk) h
    · obtain ⟨e, he', hvalue⟩ := ev.exists_rankable? hc s hp
      rw [he] at he'
      obtain rfl := Option.some.inj he'
      rw [Agree, hvalue]
      exact h p hp

end Evaluation

theorem Shape.isDistinct_of_dense [BEq σ] (s : SelectBody σ) {c : Core σ}
    (h : (c.distinct || c.singleDistinct) = true) : (Shape.of s c).isDistinct = true := by
  rcases Bool.or_eq_true_iff.1 h with h | h
  · exact Bool.or_eq_true_iff.2 (.inl h)
  · obtain ⟨p, hps, hmarked⟩ := Core.singleDistinct_iff.1 h
    refine Bool.or_eq_true_iff.2 (.inr ?_)
    rw [hps]
    exact hmarked

/-- A page of distinct rows is taken by a dense rank. -/
theorem Scope.paginated_denseRank [BEq σ] {sc : Scope σ} {sh : Shape} {s : SelectBody σ}
    {c : Core σ} {q : Query} (h : (sc.paginated sh s c).result = .ok q)
    (hdense : (c.distinct || sh.singleDistinct) = true) :
    ∃ keys window numbered, (sh.denseKeys s c).result = .ok keys ∧
      (sc.window .denseRank [] keys).result = .ok window ∧
      q.body.rows = some (.derived numbered sc.names.numbered) ∧
      numbered.body.columns.head? = some [.ranked window sc.names.rowNumber] := by
  simp only [paginated, hdense, if_true, Trace.bind_eq_ok] at h
  obtain ⟨keys, hkeys, top, -, outer, -, window, hwindow, columns, -, frame, -, offset, -, h⟩ := h
  obtain rfl := Except.ok.inj h
  exact ⟨keys, window, _, hkeys, hwindow, rfl, rfl⟩

end

/-! ## Selects -/

namespace Core

variable {c : Core Select} {options : Options}

theorem Rankable.prepared (h : c.Rankable) (options : Options) :
    (c.prepared options).Rankable where
  wildcards := by
    intro p hprepared table htable
    obtain ⟨p, hp, rfl⟩ := List.mem_map.1 hprepared
    rw [Expr.unmarked_map, Expr.unaliased_map] at htable
    rw [baseTable?_prepared]
    refine h.wildcards p hp table ?_
    cases hp' : p.unmarked.unaliased <;> rw [hp'] at htable <;> cases htable
    rfl
  aggregates := by
    intro p hprepared hmarked fn args d haggregate
    obtain ⟨p, hp, rfl⟩ := List.mem_map.1 hprepared
    rw [Expr.isMarked_map] at hmarked
    rw [Expr.unmarked_map, Expr.unaliased_map] at haggregate
    cases hp' : p.unmarked.unaliased <;> rw [hp'] at haggregate <;> cases haggregate
    exact h.aggregates p hp hmarked _ _ _ hp'

theorem dense_prepared (options : Options) (h : (c.distinct || c.singleDistinct) = true) :
    ((c.prepared options).distinct || (c.prepared options).singleDistinct) = true := by
  rcases Bool.or_eq_true_iff.1 h with h | h
  · exact Bool.or_eq_true_iff.2 (.inl h)
  · obtain ⟨p, hps, hmarked⟩ := singleDistinct_iff.1 h
    refine Bool.or_eq_true_iff.2
      (.inr (singleDistinct_iff.2 ⟨p.map (Select.compiled options), ?_, ?_⟩))
    · exact congrArg (List.map (Expr.map (Select.compiled options))) hps
    · rwa [Expr.isMarked_map]

theorem identity_prepared (c : Core Select) (options : Options) (p : Expr Select) :
    (c.prepared options).identity (p.map (Select.compiled options)) =
      (c.identity p).map (Select.compiled options) := by
  rw [identity, identity, Expr.unaliased_map, Expr.wildcardTable?_map, baseTable?_prepared]
  cases p.unaliased.wildcardTable? with
  | none => rfl
  | some table =>
    cases c.baseTable? with
    | none => rfl
    | some base =>
      simp only
      split
      · cases base.keyColumn? <;> rfl
      · rfl

end Core

namespace Evaluation

variable {c : Core Select} {ρ ν : Type}

/-- The meaning of the expressions of a core as it is compiled. -/
def prepared (ev : Evaluation c ρ ν) (options : Options) : Evaluation (c.prepared options) ρ ν where
  value e := ev.value (e.map Compiled.source)
  value_lowercase e := by
    rw [Expr.lowercase, ← Expr.rename_map]
    exact ev.value_lowercase _
  value_alias e name := ev.value_alias _ name
  value_distinct e := ev.value_distinct _
  value_named e name h := by
    obtain ⟨p, hp, he⟩ := List.mem_map.1 h
    cases p <;> cases he
    rw [Select.map_source_compiled]
    exact ev.value_named _ _ hp
  eq_of_key base key hbase hkey := by
    rw [Core.baseTable?_prepared] at hbase
    exact ev.eq_of_key base key hbase hkey

theorem Extensional.prepared {ev : Evaluation c ρ ν} (h : ev.Extensional) (options : Options) :
    (ev.prepared options).Extensional := by
  intro e e' hbeq
  refine h _ _ ?_
  show Expr.sameWith _ (e.map Compiled.source) (e'.map Compiled.source) = true
  rw [Expr.sameWith_map]
  exact hbeq

end Evaluation

namespace Select

variable {options : Options} {s : Select} {c : Core Select} {q : Query} {ρ ν : Type}

/-- A select of distinct rows is compiled to a page that is taken by a dense rank, and its
projections can be ranked. -/
structure DensePage (options : Options) (s : Select) (c : Core Select) (q : Query) : Prop where
  head : s.body.cores.head? = some c
  compile : (s.compile options).result = .ok q
  strategy : s.strategy? options = some .paginated
  distinct : (c.distinct || c.singleDistinct) = true
  rankable : c.Rankable

/-- The query of a select numbers its rows by a dense rank over these keys. -/
def RanksBy (options : Options) (s : Select) (c : Core Select) (q : Query)
    (keys : List (SortKey Compiled)) : Prop :=
  ∃ orders window numbered,
    ((s.scope options).distinctKeys (s.level options).orders).result = .ok orders ∧
    ((Shape.of { s.level options with orders := orders } (c.prepared options)).denseKeys
      { s.level options with orders := orders } (c.prepared options)).result = .ok keys ∧
    ((s.scope options).window .denseRank [] keys).result = .ok window ∧
    q.body.rows = some (.derived numbered (s.scope options).names.numbered) ∧
    numbered.body.columns.head? = some [.ranked window (s.scope options).names.rowNumber]

/-- The query of a select ranks its rows by keys on which two rows agree exactly when they agree on
every projection, where the primary key stands for all columns of its table. -/
def TellsDuplicates (options : Options) (s : Select) (q : Query) (ev : Evaluation c ρ ν) : Prop :=
  ∃ keys, s.RanksBy options c q keys ∧
    ∀ r r', (∀ k ∈ keys, ev.Agree r r' (k.expr.map Compiled.source)) ↔
      ∀ p ∈ c.projections, ev.Agree r r' (c.identity p)

/-- **Dense ranks tell duplicates**: a page of distinct rows with some projection ranks its rows by
what tells duplicates, whatever its expressions mean. -/
theorem denseRank_tells_duplicates (h : s.DensePage options c q) (hprojections : c.projections ≠ [])
    (ev : Evaluation c ρ ν) (hsame : ev.Extensional) : s.TellsDuplicates options q ev := by
  obtain ⟨hc, hq, hpage, hdense, hrankable⟩ := h
  obtain ⟨orders, horders, hstrategy, -⟩ := compile_eq_ok hc hq
  obtain ⟨orders', horders', hpaginated⟩ := paginated_eq_ok hc hq hpage
  obtain rfl : orders' = orders := by
    rw [horders] at horders'
    exact (Except.ok.inj horders').symm
  have hdense' := Core.dense_prepared options hdense
  obtain ⟨keys, window, numbered, hkeys, hwindow, hrows, hcolumns⟩ :=
    Scope.paginated_denseRank hpaginated hdense'
  -- the order is among the projections, or the strategy would have been another one
  have hcovered := Scope.isCovered_of_distinct { s.level options with orders := orders' }
    (.inr ((congrArg Shape.strategy (Shape.of_correlated _ _)).trans (hstrategy hpage)))
    (Shape.isDistinct_of_dense _ hdense')
  have hprojections' : (c.prepared options).projections ≠ [] := by
    simpa [Core.prepared, Core.map] using hprojections
  obtain ⟨keys', hkeys', hagree⟩ := (ev.prepared options).agree_denseKeys_iff
    (hsame.prepared options) (hrankable.prepared options) hprojections' hcovered
  obtain rfl : keys' = keys := by
    rw [hkeys] at hkeys'
    exact (Except.ok.inj hkeys').symm
  refine ⟨keys', ⟨orders', window, numbered, horders, hkeys, hwindow, hrows, hcolumns⟩,
    fun r r' => (hagree r r').trans (List.forall_mem_map.trans (forall₂_congr fun p _ => ?_))⟩
  show ev.Agree r r' (Expr.map _ _) ↔ _
  rw [Core.identity_prepared, map_source_compiled]

end Select

/-! ## Rows of two numbers -/

/-- The first number of a row is the value of all qualified columns, the second one that of all
others. A negative double may be told from others. -/
def pairValue {σ : Type} (signed : Bool) : Expr σ → Nat × Nat → Nat
  | .column ⟨some _, _⟩ => Prod.fst
  | .column ⟨none, _⟩ => Prod.snd
  | .wildcard _ => Prod.fst
  | .alias e _ => pairValue signed e
  | .distinct e => pairValue signed e
  | .literal (.float x) => fun r => if signed && x.negative then r.2 else 0
  | _ => fun _ => 0

namespace Evaluation

theorem pairValue_lowercase {σ : Type} (signed : Bool) : ∀ e : Expr σ,
    pairValue signed e.lowercase = pairValue signed e
  | .alias e _ | .distinct e => pairValue_lowercase signed e
  | .column ⟨some _, _⟩ | .column ⟨none, _⟩ => rfl
  | .wildcard _ | .literal _ | .typed _ _ | .aggregate _ _ _ | .call _ _ | .binary _ _ _ | .not _
  | .isNull _ _ | .inList _ _ _ | .inSubquery _ _ _ | .grouping _ | .caseSensitive _ | .raw _ => rfl

/-- Rows of two numbers give a meaning to the expressions of a core whose aliases are for columns
that are not qualified. -/
def pairs {σ : Type} (signed : Bool) (c : Core σ)
    (h : ∀ e name, .alias e name ∈ c.projections → pairValue signed e = Prod.snd) :
    Evaluation c (Nat × Nat) Nat where
  value := pairValue signed
  value_lowercase := pairValue_lowercase signed
  value_alias _ _ := rfl
  value_distinct _ := rfl
  value_named e name hp := (h e name hp).symm
  eq_of_key base key _ hkey := by
    obtain ⟨name, -, rfl⟩ := Option.map_eq_some_iff.1 hkey
    exact fun r r' hr => ⟨hr, fun _ => hr⟩

theorem pairValue_congr {σ : Type} (eq : σ → σ → Bool) : ∀ e e' : Expr σ,
    e.sameWith eq e' = true → pairValue false e = pairValue false e'
  | .alias e _, e', h => by
    cases e' <;> simp only [Expr.sameWith, Bool.false_eq_true, Bool.and_eq_true] at h
    have hvalue := pairValue_congr eq e _ h.1
    exact hvalue
  | .distinct e, e', h => by
    cases e' <;> simp only [Expr.sameWith, Bool.false_eq_true] at h
    have hvalue := pairValue_congr eq e _ h
    exact hvalue
  | .column c, e', h => by
    cases e' <;> simp only [Expr.sameWith, Bool.false_eq_true, beq_iff_eq] at h
    rw [h]
  | .literal v, e', h => by
    have hliteral : ∀ v, pairValue false (.literal v : Expr σ) = fun _ => 0 := by
      intro v
      cases v <;> rfl
    cases e' <;> simp only [Expr.sameWith, Bool.false_eq_true] at h
    rw [hliteral, hliteral]
  | .wildcard _, e', h | .typed _ _, e', h | .aggregate _ _ _, e', h | .call _ _, e', h
  | .binary _ _ _, e', h | .not _, e', h | .isNull _ _, e', h | .inList _ _ _, e', h
  | .inSubquery _ _ _, e', h | .grouping _, e', h | .caseSensitive _, e', h | .raw _, e', h => by
    cases e' <;> simp only [Expr.sameWith, Bool.false_eq_true] at h
    rfl

theorem extensional_pairs {σ : Type} [BEq σ] {c : Core σ}
    (h : ∀ e name, .alias e name ∈ c.projections → pairValue false e = Prod.snd) :
    (pairs false c h).Extensional := fun e e' => pairValue_congr _ e e'

end Evaluation

namespace Select

/-- Distinct rows of all columns of a table and a column under an alias. -/
def aliasedCore : Core Select where
  projections := [.allOf "t", .alias (.named "y") "Z"]
  source := some (.table { name := "t", primaryKey := some "id" })
  distinct := true

/-- A page of these rows in the order of a column of the table and of the alias. -/
def aliasedPage : Select :=
  .of
    { cores := [aliasedCore]
      orders := [(Expr.qualified "T" "x").asc, (Expr.named "z").desc]
      offset := some (.int 1) }

theorem aliasedCore_aliases : ∀ e name, .alias e name ∈ aliasedCore.projections →
    pairValue false e = Prod.snd := by
  intro e name h
  simp only [aliasedCore, Expr.allOf, List.mem_cons, reduceCtorEq, Expr.alias.injEq,
    List.not_mem_nil, or_false, false_or] at h
  rw [h.1]
  rfl

theorem denseRank_tells_duplicates_aliasedPage :
    ∃ q, aliasedPage.DensePage {} aliasedCore q ∧ aliasedCore.projections ≠ [] ∧
      (Evaluation.pairs false aliasedCore aliasedCore_aliases).Extensional ∧
      aliasedPage.TellsDuplicates {} q
        (Evaluation.pairs false aliasedCore aliasedCore_aliases) := by
  have hrankable : aliasedCore.Rankable := by
    refine ⟨List.forall_mem_cons.2 ⟨fun table htable => ?_, List.forall_mem_singleton.2 ?_⟩,
      List.forall_mem_cons.2 ⟨fun h => ?_, List.forall_mem_singleton.2 fun h => ?_⟩⟩
    · cases htable
      exact ⟨_, _, rfl, rfl, rfl⟩
    · intro table htable
      cases htable
    · cases h
    · cases h
  have hpage : aliasedPage.DensePage {} aliasedCore _ := ⟨rfl, rfl, rfl, rfl, hrankable⟩
  have hsame := Evaluation.extensional_pairs aliasedCore_aliases
  have hne : aliasedCore.projections ≠ [] := List.cons_ne_nil _ _
  exact ⟨_, hpage, hne, hsame, denseRank_tells_duplicates hpage hne _ hsame⟩

/-- Distinct rows of no projections. -/
def emptyCore : Core Select where
  source := some (.table { name := "t", primaryKey := some "id" })
  distinct := true

/-- A page of these rows. -/
def emptyPage : Select := .of { cores := [emptyCore], offset := some (.int 1) }

/-- Without projections, all rows are duplicates and are yet ranked by the primary key. -/
theorem emptyPage_not_tellsDuplicates :
    ∃ q, emptyPage.DensePage {} emptyCore q ∧ ∃ ev : Evaluation emptyCore (Nat × Nat) Nat,
      ev.Extensional ∧ ¬ emptyPage.TellsDuplicates {} q ev := by
  have hnone : ∀ p, p ∉ emptyCore.projections := fun _ => List.not_mem_nil
  have hrankable : emptyCore.Rankable :=
    ⟨fun p hp => absurd hp (hnone p), fun p hp => absurd hp (hnone p)⟩
  refine ⟨_, ⟨rfl, rfl, rfl, rfl, hrankable⟩,
    .pairs false emptyCore fun _ _ hp => absurd hp (hnone _), Evaluation.extensional_pairs _, ?_⟩
  rintro ⟨keys, ⟨orders, window, numbered, horders, hkeys, -⟩, hagree⟩
  obtain rfl : [] = orders := Except.ok.inj horders
  obtain rfl : [(Expr.qualified "t" "id").asc] = keys := Except.ok.inj hkeys
  have hkey := (hagree (0, 0) (1, 0)).2 (fun p hp => absurd hp (hnone p)) _ List.mem_cons_self
  cases hkey

/-- Distinct rows of a negative zero. -/
def zeroCore : Core Select where
  projections := [.literal (.float (.zero true))]
  distinct := true

/-- A page of these rows in the order of a positive zero. -/
def zeroPage : Select :=
  .of
    { cores := [zeroCore]
      orders := [(Expr.literal (.float (.zero false))).asc]
      offset := some (.int 1) }

/-- The two zeros are one key. -/
theorem zeroPage_not_tellsDuplicates :
    ∃ q, zeroPage.DensePage {} zeroCore q ∧ zeroCore.projections ≠ [] ∧
      ∃ ev : Evaluation zeroCore (Nat × Nat) Nat, ¬ zeroPage.TellsDuplicates {} q ev := by
  have hrankable : zeroCore.Rankable := by
    refine ⟨List.forall_mem_singleton.2 fun table h => ?_, List.forall_mem_singleton.2 fun h => ?_⟩
    · cases h
    · cases h
  refine ⟨_, ⟨rfl, rfl, rfl, rfl, hrankable⟩, List.cons_ne_nil _ _,
    .pairs true zeroCore fun _ _ h => ?_, ?_⟩
  · cases List.mem_singleton.1 h
  · rintro ⟨keys, ⟨orders, window, numbered, horders, hkeys, -⟩, hagree⟩
    obtain rfl : [(Expr.literal (.float (.zero false))).asc] = orders := Except.ok.inj horders
    obtain rfl : [(Expr.literal (.float (.zero false))).asc] = keys := Except.ok.inj hkeys
    have hvalue := (hagree (0, 0) (0, 1)).1 (List.forall_mem_singleton.2 rfl) _
      List.mem_cons_self
    cases hvalue

/-- **Dense ranks do not tell duplicates** without projections, nor when the two zeros mean
different things. -/
theorem denseRank_not_tells_duplicates :
    (∃ (s : Select) (c : Core Select) (q : Query), s.DensePage {} c q ∧
      ∃ ev : Evaluation c (Nat × Nat) Nat, ev.Extensional ∧ ¬ s.TellsDuplicates {} q ev) ∧
    ∃ (s : Select) (c : Core Select) (q : Query), s.DensePage {} c q ∧ c.projections ≠ [] ∧
      ∃ ev : Evaluation c (Nat × Nat) Nat, ¬ s.TellsDuplicates {} q ev :=
  ⟨⟨_, _, emptyPage_not_tellsDuplicates⟩, ⟨_, _, zeroPage_not_tellsDuplicates⟩⟩

end Select

end Transact
