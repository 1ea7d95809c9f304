import Transact.Proofs.Plan.Within
import Transact.Proofs.Query
import Transact.Proofs.Sql.Closed
import Transact.Proofs.Where

/-!
# Tidy texts of queries

The text of a query is tidy when the query is within a lexicon whose names, constants and verbatim
texts are written as tidy texts (`Lexicon.Tidies`), and when the texts of the queries after `IN` are
tidy.

* `Expr.Within.tidy`, `Source.Within.tidy`, `QueryBody.Within.tidy`: one lemma for each part of a
  level.
* `Query.Within.tidy`: the text of a query with its derived tables.
* `UpdateQuery.Within.tidy`: the text of an update.
-/

set_option autoImplicit false

namespace Transact

open Sql Text

variable {good : List Token → Prop} {lex : Lexicon} {collation : String}

/-- What the lexicon has is written as tidy text. -/
structure Lexicon.Tidies (lex : Lexicon) (good : List Token → Prop) : Prop where
  name : ∀ n, lex.name n → good [.name n]
  verbatim : ∀ text, lex.verbatim text → Tidy good text
  constant : ∀ v, lex.constant v → UnslashedIn v
  raw : ∀ text, lex.raw text → Tidy good text
  fragment : ¬ lex.fragment

section

variable [Composable good]

theorem Lexicon.Tidies.path (hlex : lex.Tidies good) {ns : List String}
    (h : ∀ n ∈ ns, lex.name n) : Tidy good (join "." (ns.map Sql.name)) := by
  refine .joined separator_dot fun text ht => ?_
  obtain ⟨n, hn, rfl⟩ := List.mem_map.1 ht
  exact .name (hlex.name n (h n hn))

/-! ## Expressions -/

theorem separator_is : Separator " IS " := ⟨fun _ => rfl, rfl, by decide, by decide⟩

theorem separator_collate : Separator " COLLATE " := ⟨fun _ => rfl, rfl, by decide, by decide⟩

theorem opens_paren : Opens good "(" := .keyword [] (fun _ => rfl) rfl rfl

theorem heads_negation (negated : Bool) : Heads good (Expr.negation negated) := by
  cases negated with
  | true => exact .keyword [.word "NOT"] (fun _ => rfl) rfl rfl
  | false => exact .keyword [] (fun _ => rfl) rfl rfl

theorem tidy_in {a b : String} (ha : Tidy good a) (negated : Bool) (hb : Tidy good b) :
    Tidy good (a ++ " " ++ Expr.negation negated ++ "IN (" ++ b ++ ")") := by
  have hopens : Opens good "IN (" := .keyword [.word "IN"] (fun _ => rfl) rfl rfl
  have hheads := (ha.heads separator_blank.heads rfl).append (heads_negation negated)
  exact .enclosed (hheads.opens hopens) hb

theorem heads_distinct (marked : Bool) : Heads good (if marked then "DISTINCT " else "") := by
  cases marked with
  | true => exact .keyword [.word "DISTINCT"] (fun _ => rfl) rfl rfl
  | false => exact .keyword [] (fun _ => rfl) rfl rfl

end

theorem dottedName_eq (s : String) : dottedName s = join "." ((nameParts s).map Sql.name) := by
  rw [dottedName, nameParts, List.map_map]
  refine congrArg (join ".") (List.map_congr_left fun cs _ => ?_)
  rw [Function.comp_apply, Sql.name, String.toList_ofList]

namespace Expr

mutual

/-- **The text of an expression** within the lexicon is tidy. -/
theorem Within.tidy [Composable good] (hlex : lex.Tidies good) (hcollation : Tidy good collation) :
    ∀ {e : Expr String}, e.Within lex (Tidy good) → Tidy good (e.sql collation)
  | .column c, h => by
    rw [Expr.sql, sql_column]
    exact hlex.path h.fits
  | .wildcard none, _ => by
    rw [Expr.sql]
    exact .of_plain rfl
  | .wildcard (some table), h => by
    rw [Expr.sql, dottedName_eq]
    exact (hlex.path h.fits).append (.of_plain rfl) (by simp [Stops, stopChars])
  | .literal v, h => .literal (hlex.constant v h.fits) none
  | .typed v ty, h => .literal (hlex.constant v h.fits) (some ty)
  | .aggregate fn args d, h => by
    have hlist : Tidy good (if args.isEmpty then "*" else join ", " (sqlList collation args)) := by
      split
      · exact .of_plain rfl
      · exact .joined separator_comma (Within.tidyList hlex hcollation args (within_aggregate.1 h))
    have hkeyword : Tidy good fn.keyword := .of_plain (by cases fn <;> rfl)
    have hassoc : ∀ a b c : String, a ++ b ++ c = a ++ (b ++ c) := fun _ _ _ => String.append_assoc
    rw [Expr.sql, hassoc (fn.keyword ++ "(")]
    exact .enclosed (hkeyword.opens opens_paren rfl) ((heads_distinct d).tidy hlist)
  | .call f args, h =>
    .enclosed ((hlex.verbatim f h.fits).opens opens_paren rfl)
      (.joined separator_comma (Within.tidyList hlex hcollation args (within_iff.1 h).2))
  | .alias e n, h => by
    obtain ⟨hn, he⟩ := within_alias.1 h
    exact (Within.tidy (e := e) hlex hcollation he).separated separator_as (.name (hlex.name n hn))
  | .distinct e, h =>
    (heads_distinct true).tidy
      (Within.tidy (e := e) hlex hcollation (h.operand List.mem_cons_self))
  | .binary l op r, h => by
    obtain ⟨hl, hr⟩ := within_binary.1 h
    have hkeyword : Tidy good op.keyword := .of_plain (by cases op <;> rfl)
    exact ((Within.tidy (e := l) hlex hcollation hl).separated separator_blank hkeyword).separated
      separator_blank (Within.tidy (e := r) hlex hcollation hr)
  | .not e, h =>
    .enclosed (.keyword [.word "NOT"] (fun _ => rfl) rfl rfl)
      (Within.tidy (e := e) hlex hcollation (h.operand List.mem_cons_self))
  | .isNull e n, h => by
    have he := Within.tidy (e := e) hlex hcollation (h.operand List.mem_cons_self)
    exact ((he.heads separator_is.heads rfl).append (heads_negation n)).tidy (.of_plain rfl)
  | .inList e list n, h => by
    have he := Within.tidy (e := e) hlex hcollation (h.operand List.mem_cons_self)
    have hlist := Within.tidyList hlex hcollation list
      fun x hx => h.operand (List.mem_cons_of_mem _ hx)
    exact tidy_in he n (.joined separator_comma hlist)
  | .inSubquery e q n, h =>
    tidy_in (Within.tidy (e := e) hlex hcollation (h.operand List.mem_cons_self)) n h.fits
  | .grouping e, h =>
    .enclosed opens_paren (Within.tidy (e := e) hlex hcollation (within_grouping.1 h))
  | .caseSensitive e, h =>
    (Within.tidy (e := e) hlex hcollation (h.operand List.mem_cons_self)).separated
      separator_collate hcollation
  | .raw s, h => hlex.raw s h.fits

theorem Within.tidyList [Composable good] (hlex : lex.Tidies good)
    (hcollation : Tidy good collation) :
    ∀ es : List (Expr String), (∀ e ∈ es, e.Within lex (Tidy good)) →
      ∀ text ∈ sqlList collation es, Tidy good text
  | [], _, _, ht => by cases ht
  | e :: es, h, text, ht => by
    rcases List.mem_cons.1 ht with rfl | ht
    · exact Within.tidy (e := e) hlex hcollation (h e List.mem_cons_self)
    · exact Within.tidyList hlex hcollation es (fun x hx => h x (List.mem_cons_of_mem _ hx)) text ht

end

end Expr

/-! ## Sources -/

variable [Composable good]

theorem TableRef.Within.tidy (hlex : lex.Tidies good) {t : TableRef} (h : t.Within lex) :
    Tidy good t.sql := by
  obtain ⟨hschema, htable⟩ := List.forall_mem_append.1 h.names
  obtain ⟨hname, halias⟩ := List.forall_mem_cons.1 htable
  have hfull : Tidy good (join "." ((t.schema.toList ++ [t.name]).map Sql.name)) :=
    hlex.path (List.forall_mem_append.2 ⟨hschema, by simpa using hname⟩)
  unfold TableRef.sql
  cases hn : t.aliasName with
  | none => exact hfull
  | some n =>
    exact hfull.separated separator_as (.name (hlex.name n (halias n (by rw [hn]; simp))))

namespace Source

theorem tidy_hinted (hlex : lex.Tidies good) {text : String} {hint : Option String}
    (h : Tidy good text) (hhint : ∀ t ∈ hint, lex.verbatim t) : Tidy good (hinted text hint) := by
  cases hint with
  | none => exact h
  | some t => exact h.separated separator_blank (hlex.verbatim t (hhint t rfl))

theorem separator_on : Separator " ON " := ⟨fun _ => rfl, rfl, by decide, by decide⟩

/-- **The text of a source** within the lexicon is tidy. -/
theorem Within.tidy (hlex : lex.Tidies good) (hcollation : Tidy good collation) :
    ∀ {s : Source String} {hint : Option String}, s.Within lex (Tidy good) →
      (∀ t ∈ hint, lex.verbatim t) → Tidy good (s.sql collation hint)
  | .table _, _, h, hhint => tidy_hinted hlex (TableRef.Within.tidy hlex h) hhint
  | .raw _, _, h, _ => absurd h hlex.fragment
  | .join kind left right condition, hint, ⟨hleft, hright, hcondition⟩, hhint => by
    have hl := Within.tidy (s := left) hlex hcollation hleft hhint
    have hinner : Tidy good (right.sql collation none) :=
      Within.tidy (s := right) hlex hcollation hright (by simp)
    have hr : Tidy good (if right.isJoin then "(" ++ right.sql collation none ++ ")"
        else right.sql collation none) := by
      split
      · exact .enclosed opens_paren hinner
      · exact hinner
    have hkeyword : Tidy good kind.keyword := .of_plain (by cases kind <;> rfl)
    have hjoined := (hl.separated separator_blank hkeyword).separated separator_blank hr
    unfold Source.sql
    simp only
    split
    · exact hl.separated separator_blank hr
    · exact hjoined
    · exact hjoined
    · exact hjoined.separated separator_on ((hcondition _ rfl).tidy hlex hcollation)

end Source

/-! ## Levels -/

section

variable {σ τ : Type} {p : σ → Prop} {p' : τ → Prop} {f : σ → τ}

theorem Window.Within.map (hf : ∀ q, p q → p' (f q)) {w : Window σ} (h : w.Within lex p) :
    (w.map f).Within lex p' :=
  ⟨List.forall_mem_map.2 fun e he => (h.partition e he).map hf,
    List.forall_mem_map.2 fun k hk => (h.orders k hk).map hf⟩

theorem Column.Within.map (hf : ∀ q, p q → p' (f q)) : ∀ {c : Column σ}, c.Within lex p →
    (c.map f).Within lex p'
  | .expr _, h => Expr.Within.map hf h
  | .ranked _ _, ⟨hw, hname⟩ => ⟨hw.map hf, hname⟩

theorem Rows.Within.map (hf : ∀ q, p q → p' (f q)) : ∀ {r : Rows σ}, r.Within lex p →
    (r.map f).Within lex p'
  | .source _ _, ⟨hs, hhint⟩ => ⟨hs.map hf, hhint⟩
  | .derived _ _, h => h

theorem QueryBody.Within.map (hf : ∀ q, p q → p' (f q)) {b : QueryBody σ} (h : b.Within lex p) :
    (b.map f).Within lex p' where
  top := by
    intro e' he'
    obtain ⟨e, he, rfl⟩ := Option.map_eq_some_iff.1 he'
    exact (h.top e he).map hf
  columns := List.forall_mem_map.2 fun block hblock =>
    List.forall_mem_map.2 fun column hcolumn => (h.columns block hblock column hcolumn).map hf
  rows := by
    intro rows' hrows'
    obtain ⟨rows, hrows, rfl⟩ := Option.map_eq_some_iff.1 hrows'
    exact (h.rows rows hrows).map hf
  filters := List.forall_mem_map.2 fun e he => (h.filters e he).map hf
  groups := List.forall_mem_map.2 fun e he => (h.groups e he).map hf
  having := by
    intro e' he'
    obtain ⟨e, he, rfl⟩ := Option.map_eq_some_iff.1 he'
    exact (h.having e he).map hf
  orders := List.forall_mem_map.2 fun k hk => (h.orders k hk).map hf

end

theorem separator_and : Separator " AND " := ⟨fun _ => rfl, rfl, by decide, by decide⟩

theorem separator_equals : Separator " = " := ⟨fun _ => rfl, rfl, by decide, by decide⟩

theorem tidy_clause (keyword : String) {sep : String} (hkeyword : IsPlain keyword)
    (hsep : Separator sep) {items : List String} (h : ∀ item ∈ items, Tidy good item) :
    ∀ text ∈ clause keyword sep items, Tidy good text := by
  intro text ht
  unfold clause at ht
  split at ht
  · cases ht
  · rw [List.mem_singleton.1 ht]
    exact (Tidy.of_plain hkeyword).separated separator_blank (.joined hsep h)

section

variable (hlex : lex.Tidies good) (hcollation : Tidy good collation)
include hlex hcollation

theorem Key.tidy {k : Key String} (h : k.expr.Within lex (Tidy good)) :
    Tidy good (k.sql collation) := by
  have he := h.tidy hlex hcollation
  unfold Key.sql
  cases k.direction with
  | none => exact he.append (.of_plain rfl) (by simp [Stops])
  | some d =>
    have hkeyword : Tidy good d.keyword := .of_plain (by cases d <;> rfl)
    rw [Option.elim_some, ← String.append_assoc]
    exact he.separated separator_blank hkeyword

theorem Window.Within.tidy {w : Window String} (h : w.Within lex (Tidy good)) :
    Tidy good (w.sql collation) := by
  have hkeyword : Tidy good w.ranking.keyword := .of_plain (by cases w.ranking <;> rfl)
  have hover : Opens good "() OVER (" :=
    .keyword [.lparen, .rparen, .word "OVER"] (fun _ => rfl) rfl rfl
  refine .enclosed (hkeyword.opens hover rfl) (.joined separator_blank ?_)
  refine List.forall_mem_append.2 ⟨tidy_clause "PARTITION BY" rfl separator_comma ?_,
    tidy_clause "ORDER BY" rfl separator_comma ?_⟩
  · exact Expr.Within.tidyList hlex hcollation _ h.partition
  · exact List.forall_mem_map.2 fun k hk => Key.tidy hlex hcollation (h.orders k hk)

theorem Column.Within.tidy : ∀ {c : Column String}, c.Within lex (Tidy good) →
    Tidy good (c.sql collation)
  | .expr _, h => Expr.Within.tidy hlex hcollation h
  | .ranked _ n, ⟨hw, hname⟩ =>
    (hw.tidy hlex hcollation).separated separator_as (.name (hlex.name n hname))

theorem Rows.Within.tidy {r : Rows String} (h : r.Within lex (Tidy good))
    (hderived : ∀ text n, r = .derived text n → Tidy good text) : Tidy good (r.sql collation) := by
  cases r with
  | source s hint => exact h.1.tidy hlex hcollation h.2
  | derived text n =>
    have hparens : Tidy good ("(" ++ text ++ ")") :=
      .enclosed opens_paren (hderived text n rfl)
    have htext : (Rows.derived text n).sql collation =
        "(" ++ text ++ ")" ++ " AS " ++ Sql.name n := by
      simp only [Rows.sql, String.append_assoc]
      rfl
    rw [htext]
    exact hparens.separated separator_as (.name (hlex.name n h))

theorem tidy_topClause {top : Option (Expr String)} (h : ∀ e ∈ top, e.Within lex (Tidy good)) :
    ∀ text ∈ topClause collation top, Tidy good text := by
  refine List.forall_mem_map.2 fun e he => ?_
  exact .enclosed (.keyword [.word "TOP"] (fun _ => rfl) rfl rfl)
    ((h e (Option.mem_toList.1 he)).tidy hlex hcollation)

/-- **The text of a level** within the lexicon is tidy, if that of a derived table is. -/
theorem QueryBody.Within.tidy {b : QueryBody String} (h : b.Within lex (Tidy good))
    (hderived : ∀ text n, b.rows = some (.derived text n) → Tidy good text) :
    Tidy good (b.sql collation) := by
  refine .joined separator_blank ?_
  simp only [List.forall_mem_append, List.forall_mem_singleton]
  refine ⟨⟨⟨⟨⟨⟨⟨⟨.of_plain rfl, ?_⟩, tidy_topClause hlex hcollation h.top⟩, ?_⟩, ?_⟩, ?_⟩, ?_⟩, ?_⟩,
    ?_⟩
  · split
    · exact List.forall_mem_singleton.2 (.of_plain rfl)
    · simp
  · refine .joined separator_comma (List.forall_mem_map.2 fun block hblock => ?_)
    refine .joined separator_comma (List.forall_mem_map.2 fun column hcolumn => ?_)
    exact (h.columns block hblock column hcolumn).tidy hlex hcollation
  · refine List.forall_mem_map.2 fun rows hrows => ?_
    have hrows := Option.mem_toList.1 hrows
    refine (Heads.keyword [.word "FROM"] (fun _ => rfl) rfl rfl).tidy ?_
    exact (h.rows rows hrows).tidy hlex hcollation fun text n ht => hderived text n (ht ▸ hrows)
  · exact tidy_clause "WHERE" rfl separator_and
      (Expr.Within.tidyList hlex hcollation _ h.filters)
  · exact tidy_clause "GROUP BY" rfl separator_comma
      (Expr.Within.tidyList hlex hcollation _ h.groups)
  · refine List.forall_mem_map.2 fun e he => ?_
    exact (Heads.keyword [.word "HAVING"] (fun _ => rfl) rfl rfl).tidy
      ((h.having e (Option.mem_toList.1 he)).tidy hlex hcollation)
  · refine tidy_clause "ORDER BY" rfl separator_comma ?_
    exact List.forall_mem_map.2 fun k hk => Key.tidy hlex hcollation (h.orders k hk)

/-! ## Queries and updates -/

/-- **The text of a query** within the lexicon is tidy, if those of the queries after `IN` are. -/
theorem Query.Within.tidy {p : Query → Prop} (hp : ∀ r, p r → Tidy good (r.sql collation))
    {q : Query} (h : q.Within lex p) : Tidy good (q.sql collation) := by
  induction h with
  | @of body own _ ih =>
    rw [Query.sql_eq_body]
    refine (own.map hp).tidy hlex hcollation fun text n hrows => ?_
    obtain ⟨rows, hrows, hmap⟩ := Option.map_eq_some_iff.1 hrows
    cases rows with
    | source s hint => cases hmap
    | derived q name =>
      cases hmap
      exact ih q n hrows

/-- **The text of an update** within the lexicon is tidy, if those of the queries after `IN` are. -/
theorem UpdateQuery.Within.tidy {p : Query → Prop} (hp : ∀ r, p r → Tidy good (r.sql collation))
    {u : UpdateQuery} (h : u.Within lex p) : Tidy good (u.sql collation) := by
  have hexpr : ∀ {e : Expr Query}, e.Within lex p → Tidy good (e.querySql collation) := fun he =>
    (he.map hp).tidy hlex hcollation
  refine .joined separator_blank ?_
  have hset : Heads good "SET " := .keyword [.word "SET"] (fun _ => rfl) rfl rfl
  simp only [List.forall_mem_append, List.forall_mem_cons, List.not_mem_nil, false_imp_iff,
    implies_true, and_true]
  refine ⟨⟨⟨.of_plain rfl, tidy_topClause hlex hcollation ?_⟩, h.table.tidy hlex, ?_⟩, ?_⟩
  · intro e' he'
    obtain ⟨e, he, rfl⟩ := Option.map_eq_some_iff.1 he'
    exact (h.top e he).map hp
  · refine hset.tidy (.joined separator_comma ?_)
    refine List.forall_mem_map.2 fun v hv => ?_
    obtain ⟨hcolumn, hvalue⟩ := h.values v hv
    refine Tidy.separated separator_equals ?_ (hexpr hvalue)
    rw [sql_column]
    exact hlex.path hcolumn
  · exact tidy_clause "WHERE" rfl separator_and
      (List.forall_mem_map.2 fun e he => hexpr (h.filters e he))

end

end Transact
