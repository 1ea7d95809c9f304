import Transact.Proofs.Outcome
import Transact.Proofs.QueryText

/-!
# The spelling of compiled statements

The text of a statement is closed, and every name in it is known where it stands: it is a name of
the select or update that is written there, or one that the compiler gives to that select.

* `Statement.Spelled`: tokens with known names only, and in between the tokens of texts that are
  written as they stand and of subqueries, which have names of their own.
* `Statement.IsSealed`: the constants of a statement and what it has written as it stands leave
  nothing open.
* `Statement.tidies_lexicon`, `Statement.serves_lexicon`: the lexicon of a statement is written as
  closed texts, and it has what the compiler brings in.
* `Select.tidy_sql`: the text of one level. `Select.tidy_sql_of_sealed`,
  `Update.tidy_sql_of_sealed`: the text of all levels.
-/

set_option autoImplicit false

namespace Transact

open Sql Text

/-! ## Names of the compiler -/

/-- A name of the compiler has no dots. -/
theorem SyntheticNames.nameParts_avoiding {used : List String} {name : String}
    (h : name ∈ (avoiding used).toList) : nameParts name = [name] := by
  rw [toList_avoiding] at h
  have hdot : '.' ∉ name.toList :=
    Fresh.notMem_of_mem_pickAll (by decide) (by decide) (by decide) name h
  rw [nameParts, split_of_notMem hdot, List.map_singleton, String.ofList_toList]

/-! ## What a statement is made of -/

/-- The names that the head of the expression has. -/
def Expr.labels {σ : Type} : Expr σ → List String
  | .column c => c.path
  | .wildcard table => table.elim [] nameParts
  | .alias _ n => [n]
  | _ => []

/-- The names that a table has, and those that its known columns are written with. -/
def TableRef.labels (t : TableRef) : List String :=
  t.schema.toList ++ t.name :: t.aliasName.toList ++
    (t.keyColumn?.toList ++ t.columnRefs).flatMap ColumnRef.path

/-- What stands at the head of the expression leaves nothing open, and it is not raw. -/
def Expr.IsSealed {σ : Type} : Expr σ → Prop
  | .literal v => UnslashedIn v
  | .typed v _ => UnslashedIn v
  | .call f _ => IsClosed f
  | .raw _ => False
  | _ => True

instance {σ : Type} : DecidablePred (Expr.IsSealed (σ := σ))
  | .literal v => inferInstanceAs (Decidable (UnslashedIn v))
  | .typed v _ => inferInstanceAs (Decidable (UnslashedIn v))
  | .call f _ => inferInstanceAs (Decidable (IsClosed f))
  | .raw _ => isFalse id
  | .column _ | .wildcard _ | .aggregate _ _ _ | .alias _ _ | .distinct _ | .binary _ _ _ | .not _
  | .isNull _ _ | .inList _ _ _ | .inSubquery _ _ _ | .grouping _ | .caseSensitive _ =>
    isTrue trivial

namespace Statement

/-- The expressions of a statement. -/
def exprs : Statement → List (Expr Select)
  | .select s => s.body.exprs
  | .update u => u.exprs

/-- The columns that a statement has outside of its expressions. -/
def columns : Statement → List ColumnRef
  | .select _ => []
  | .update u => u.columns

/-- The sources of a statement. -/
def sources : Statement → List (Source Select)
  | .select s => s.body.cores.flatMap (·.source.toList)
  | .update u => [.table u.table]

/-- The lock hint that a statement has of its own. -/
def hint? : Statement → Option String
  | .select s =>
    match s.body.lock with
    | some (.hint text) => some text
    | _ => none
  | .update _ => none

/-- The statement has the select after an `IN`. -/
def Holds (st : Statement) (sub : Select) : Prop := ∃ e ∈ st.exprs, sub ∈ e.subqueries

/-- The statement itself has the name, not only one of its subqueries. -/
inductive Names (st : Statement) (n : String) : Prop
  | expr {e x : Expr Select} (mem : e ∈ st.exprs) (occurs : x.Occurs e) (label : n ∈ x.labels)
  | column {c : ColumnRef} (mem : c ∈ st.columns) (part : n ∈ c.path)
  | table {source : Source Select} {t : TableRef} (mem : source ∈ st.sources)
      (table : t ∈ source.tables) (label : n ∈ t.labels)

/-- The text is written as it stands where the statement is. -/
inductive Verbatim (options : Options) (st : Statement) : String → Prop
  | collation : Verbatim options st options.collation
  | lockHint : Verbatim options st options.lockHint
  | hint {text : String} (hint : st.hint? = some text) : Verbatim options st text
  | call {e : Expr Select} {f : String} {args : List (Expr Select)} (mem : e ∈ st.exprs)
      (occurs : (Expr.call f args).Occurs e) : Verbatim options st f

/-- The constants of the statement and what it has written as it stands leave nothing open, and
nothing of it is raw. -/
structure IsSealed (st : Statement) : Prop where
  exprs : ∀ e ∈ st.exprs, ∀ x, Expr.Occurs x e → x.IsSealed
  sources : ∀ source ∈ st.sources, source.hasRaw = false
  hint : ∀ text ∈ st.hint?, IsClosed text

/-! ## Spelled tokens -/

/-- The name is one of the statement, or one that the compiler gives to the select. -/
def Knows (st : Statement) (s : Option Select) (n : String) : Prop :=
  st.Names n ∨ ∃ q ∈ s, n = "count_id" ∨ n ∈ (SyntheticNames.avoiding q.body.names).toList

/-- **The tokens of a statement**, where the select `s` of it is written: names that are known
there, and in between the tokens of texts that are written as they stand and of subqueries. An
update is written as itself, with the select of its keys in it; that select has no names but those
of the update and of the compiler. -/
inductive Spelled (options : Options) : Statement → Option Select → List Token → Prop
  | nil {st : Statement} {s : Option Select} : Spelled options st s []
  | token {st : Statement} {s : Option Select} {t : Token} {ts : List Token}
      (known : ∀ n, t = .name n → st.Knows s n) (rest : Spelled options st s ts) :
      Spelled options st s (t :: ts)
  | verbatim {st : Statement} {s : Option Select} {text : String} {ts : List Token}
      (verbatim : st.Verbatim options text) (rest : Spelled options st s ts) :
      Spelled options st s (tokens text ++ ts)
  | subquery {st : Statement} {s : Option Select} {sub : Select} {text : String}
      {ts : List Token} (nested : st.Holds sub)
      (sql : Statement.sql options (.select sub) = .ok text)
      (own : Spelled options (.select sub) (some sub) (tokens text))
      (rest : Spelled options st s ts) : Spelled options st s (tokens text ++ ts)
  | keys {u : Update} {key : ColumnRef} {text : String} {ts : List Token}
      (keyed : key ∈ u.keyColumn?)
      (sql : Statement.sql options (.select (u.guarded.keySelect key)) = .ok text)
      (own : Spelled options (.update u) (some (u.guarded.keySelect key)) (tokens text))
      (rest : Spelled options (.update u) none ts) :
      Spelled options (.update u) none (tokens text ++ ts)

variable {options : Options} {st : Statement} {s : Option Select}

theorem Spelled.append {as bs : List Token} (ha : Spelled options st s as)
    (hb : Spelled options st s bs) : Spelled options st s (as ++ bs) := by
  induction ha with
  | nil => exact hb
  | token known _ ih => exact .token known (ih hb)
  | verbatim verbatim _ ih =>
    rw [List.append_assoc]
    exact .verbatim verbatim (ih hb)
  | subquery nested sql own _ _ ih =>
    rw [List.append_assoc]
    exact .subquery nested sql own (ih hb)
  | keys keyed sql own _ _ ih =>
    rw [List.append_assoc]
    exact .keys keyed sql own (ih hb)

instance : Composable (Spelled options st s) where
  nil := .nil
  append := Spelled.append
  plain h := .token (fun n hn => by rw [hn] at h; cases h) .nil

theorem tidy_subquery {sub : Select} {text : String} (nested : st.Holds sub)
    (hsql : Statement.sql options (.select sub) = .ok text)
    (hown : Tidy (Spelled options (.select sub) (some sub)) text) :
    Tidy (Spelled options st s) text := by
  refine .of_isClosed hown.isClosed ?_
  rw [← List.append_nil (tokens text)]
  exact .subquery nested hsql hown.tokens.good .nil

/-! ## The lexicon of a statement -/

/-- What may be written where the select `s` of the statement is. -/
def lexicon (options : Options) (st : Statement) (s : Option Select) : Lexicon where
  name := st.Knows s
  verbatim text := IsClosed text ∧ st.Verbatim options text
  constant := UnslashedIn
  raw text := text = "(SELECT NULL)"
  fragment := False

theorem tidy_verbatim {text : String} (hclosed : IsClosed text) (h : st.Verbatim options text) :
    Tidy (Spelled options st s) text := by
  refine .of_isClosed hclosed ?_
  rw [← List.append_nil (tokens text)]
  exact .verbatim h .nil

/-- **The lexicon of a statement** is written with spelled tokens. -/
theorem tidies_lexicon : (st.lexicon options s).Tidies (Spelled options st s) where
  name _ hn := .token (fun m hm => by rwa [← Token.name.inj hm]) .nil
  verbatim _ h := tidy_verbatim h.1 h.2
  constant _ h := h
  raw _ h := by
    rw [h]
    exact .keyword (by decide) (by decide)
  fragment h := h

/-- The lexicon where a select is written has what the compiler brings in. -/
theorem serves_lexicon (hhint : IsClosed options.lockHint) (q : Select) :
    (st.lexicon options (some q)).Serves (q.scope options) where
  synthetic name hname := by
    rw [q.names_scope, Select.level, SelectBody.names_map] at hname
    have hknown : st.Knows (some q) name := .inr ⟨q, rfl, .inr hname⟩
    refine ⟨hknown, fun part hpart => ?_⟩
    rw [SyntheticNames.nameParts_avoiding hname] at hpart
    rw [List.mem_singleton.1 hpart]
    exact hknown
  count := .inr ⟨q, rfl, .inl rfl⟩
  integer _ := trivial
  unordered := rfl
  hint := ⟨hhint, .lockHint⟩

theorem IsSealed.within_expr (h : st.IsSealed) {p : Select → Prop}
    (hp : ∀ sub, st.Holds sub → p sub) {e : Expr Select} (he : e ∈ st.exprs) :
    e.Within (st.lexicon options s) p := by
  intro x hx
  have hsealed := h.exprs e he x hx
  cases x
  case column | wildcard => exact fun n hn => .inl (.expr he hx hn)
  case «alias» => exact .inl (.expr he hx (List.mem_singleton_self _))
  case literal | typed => exact hsealed
  case call => exact ⟨hsealed, .call he hx⟩
  case inSubquery q _ =>
    exact hp q ⟨e, he, Expr.subqueries_of_occurs hx
      (List.mem_append_right _ (List.mem_singleton_self q))⟩
  case raw => exact hsealed.elim
  all_goals trivial

theorem IsSealed.within_source (h : st.IsSealed) {source : Source Select}
    (hsource : source ∈ st.sources) :
    (∀ t ∈ source.tables, t.Within (st.lexicon options s)) ∧
      (source.hasRaw = true → (st.lexicon options s).fragment) := by
  constructor
  · intro t ht
    have hname : ∀ n ∈ t.labels, (st.lexicon options s).name n := fun n hn =>
      .inl (.table hsource ht hn)
    obtain ⟨hnames, hcolumns⟩ := List.forall_mem_append.1 hname
    exact ⟨hnames, fun c hc n hn => hcolumns n (List.mem_flatMap.2 ⟨c, hc, hn⟩)⟩
  · rw [h.sources source hsource]
    exact fun hfalse => by cases hfalse

theorem nests_of_holds {sub : Select} : ∀ {st : Statement}, st.Holds sub → st.Nests sub
  | .select _, h => .single h
  | .update _, ⟨e, he, hsub⟩ => ⟨e, he, sub, hsub, .refl⟩

theorem nests_of_holds_nests {sub q : Select} : ∀ {st : Statement}, st.Holds sub →
    (Statement.select sub).Nests q → st.Nests q
  | .select _, h, hq => .head h hq
  | .update _, ⟨e, he, hsub⟩, hq => ⟨e, he, sub, hsub, hq.to_reflTransGen⟩

end Statement

/-! ## Texts of levels -/

section

variable {options : Options} (hhint : IsClosed options.lockHint)
  (hcollation : IsClosed options.collation)
include hhint hcollation

/-- **The text of a select** that is written for a statement, if the texts of its subqueries are
spelled. -/
theorem Select.tidy_sql {st : Statement} {s : Select} {p : Select → Prop} {text : String}
    (hs : s.body.Within (st.lexicon options (some s)) p)
    (hp : ∀ sub t, p sub → Statement.sql options (.select sub) = .ok t →
      Tidy (Statement.Spelled options st (some s)) t)
    (h : Statement.sql options (.select s) = .ok text) :
    Tidy (Statement.Spelled options st (some s)) text := by
  rw [s.sql_result, Except.map_eq_ok_iff] at h
  obtain ⟨q, hq, rfl⟩ := h
  have hwithin := Select.within_compile (Statement.serves_lexicon hhint s) hs hq
  refine hwithin.tidy Statement.tidies_lexicon (Statement.tidy_verbatim hcollation .collation) ?_
  rintro r ⟨sub, hsub, hr⟩
  exact hp sub _ hsub (Select.sql_eq hr)

/-- **The text of a sealed select** is tidy, by induction over the selects inside. -/
theorem Select.tidy_sql_of_sealed : ∀ s : Select, (Statement.select s).IsSealed →
    (∀ sub, (Statement.select s).Nests sub → (Statement.select sub).IsSealed) →
    ∀ text, Statement.sql options (.select s) = .ok text →
      Tidy (Statement.Spelled options (.select s) (some s)) text := by
  refine Select.induction ?_
  intro body ih hsealed hnested text h
  refine Select.tidy_sql hhint hcollation (p := (Statement.select (.of body)).Holds)
    (SelectBody.within_of_exprs (fun e he => hsealed.within_expr (fun _ hsub => hsub) he)
      (fun source hsource => hsealed.within_source hsource) fun t ht => ?_)
    (fun sub t hsub ht => ?_) h
  · have hhint : (Statement.select (.of body)).hint? = some t := by
      simp only [Statement.hint?, ht]
    exact ⟨hsealed.hint t hhint, .hint hhint⟩
  · refine Statement.tidy_subquery hsub ht ?_
    obtain ⟨e, he, hq⟩ := hsub
    exact ih e he sub hq (hnested sub (Statement.nests_of_holds ⟨e, he, hq⟩))
      (fun q hq' => hnested q (Statement.nests_of_holds_nests ⟨e, he, hq⟩ hq')) t ht

theorem Statement.tidy_nested {st : Statement} {s : Option Select} {sub : Select} {t : String}
    (hnested : ∀ q, st.Nests q → (Statement.select q).IsSealed) (hsub : st.Holds sub)
    (ht : Statement.sql options (.select sub) = .ok t) :
    Tidy (Statement.Spelled options st s) t :=
  tidy_subquery hsub ht (Select.tidy_sql_of_sealed hhint hcollation sub
    (hnested sub (nests_of_holds hsub)) (fun q hq => hnested q (nests_of_holds_nests hsub hq)) t ht)

namespace Update

variable {u : Update} (hsealed : (Statement.update u).IsSealed)
  (hnested : ∀ sub, (Statement.update u).Nests sub → (Statement.select sub).IsSealed)
include hsealed hnested

/-- The text of the select of the keys, inside of the update. -/
theorem tidy_keySelect {key : ColumnRef} (hkey : key ∈ u.keyColumn?) {t : String}
    (ht : Statement.sql options (.select (u.guarded.keySelect key)) = .ok t) :
    Tidy (Statement.Spelled options (.update u) none) t := by
  have hwithin : (u.guarded.keySelect key).body.Within
      ((Statement.update u).lexicon options (some (u.guarded.keySelect key)))
      (Statement.update u).Holds := by
    refine within_keySelect (fun _ => trivial) ?_ (fun e he => ?_) fun n hn => ?_
    · exact (hsealed.within_source List.mem_cons_self).1 _ List.mem_cons_self
    · exact hsealed.within_expr (fun _ h => h) he
    · exact .inl (.column (List.mem_append_right _ (Option.mem_toList.2 hkey)) hn)
  have hown := Select.tidy_sql hhint hcollation hwithin
    (fun _ _ => Statement.tidy_nested hhint hcollation hnested) ht
  refine .of_isClosed hown.isClosed ?_
  rw [← List.append_nil (tokens t)]
  exact .keys hkey ht hown.tokens.good .nil

/-- **The text of a sealed update** is tidy. -/
theorem tidy_sql_of_sealed {text : String} (h : Statement.sql options (.update u) = .ok text) :
    Tidy (Statement.Spelled options (.update u) none) text := by
  rw [u.sql_result, Except.map_eq_ok_iff] at h
  obtain ⟨uq, huq, rfl⟩ := h
  let p : Select → Prop := fun sub =>
    (Statement.update u).Holds sub ∨ ∃ key ∈ u.keyColumn?, sub = u.guarded.keySelect key
  have hu : u.Within ((Statement.update u).lexicon options none) p := by
    refine within_of_exprs ?_ (fun e he => ?_) (fun c hc n hn => .inl (.column hc hn))
      fun key hkey => .inr ⟨key, hkey, rfl⟩
    · exact (hsealed.within_source List.mem_cons_self).1 _ List.mem_cons_self
    · exact hsealed.within_expr (fun _ h => .inl h) he
  have hwithin := within_compile (fun _ => trivial) hu huq
  refine hwithin.tidy Statement.tidies_lexicon (Statement.tidy_verbatim hcollation .collation) ?_
  rintro r ⟨sub, hsub | ⟨key, hkey, rfl⟩, hr⟩
  · exact Statement.tidy_nested hhint hcollation hnested hsub (Select.sql_eq hr)
  · exact tidy_keySelect hhint hcollation hsealed hnested hkey (Select.sql_eq hr)

end Update

end

/-! ## Statements -/

/-- The select that a statement is written as, if it is one. -/
def Statement.select? : Statement → Option Select
  | .select s => some s
  | .update _ => none

/-- **The text of a statement** leaves nothing open, and every name in it is known where it
stands. -/
theorem Statement.sql_spelled {options : Options} {st : Statement} {text : String}
    (hhint : IsClosed options.lockHint) (hcollation : IsClosed options.collation)
    (hst : st.IsSealed) (hnested : ∀ sub, st.Nests sub → (Statement.select sub).IsSealed)
    (h : Statement.sql options st = .ok text) :
    IsClosed text ∧ st.Spelled options st.select? (tokens text) := by
  suffices ht : Tidy (st.Spelled options st.select?) text from ⟨ht.isClosed, ht.tokens.good⟩
  cases st with
  | select s => exact Select.tidy_sql_of_sealed hhint hcollation s hst hnested text h
  | update u => exact Update.tidy_sql_of_sealed hhint hcollation hst hnested h

/-- The values of a function, with delimiters in the names and the constant. -/
def delimiterValues : Select :=
  .of
    { cores :=
        [{ projections := [.call "[dbo].f" [.literal (.string "it's ]")]]
           source := some (.table { name := "u(" }) }] }

/-- A page of rows whose names have delimiters in them. -/
def delimiterPage : Select :=
  .of
    { cores :=
        [{ projections := [.qualified "s.t]" "a]"]
           source := some (.table { name := "t]", schema := some "s" })
           wheres := [.inSubquery (.named "[b") delimiterValues false] }]
      orders := [(Expr.named "a]").asc]
      limit := some (.int 3)
      offset := some (.int 1) }

/-- The text of the page. -/
def delimiterPageText : String :=
  "SELECT TOP (3) [__rnt].* FROM (SELECT ROW_NUMBER() OVER (ORDER BY [a]]] ASC) AS [__rn], " ++
    "[s].[t]]].[a]]] FROM [s].[t]]] WHERE [[b] IN (SELECT [dbo].f(N'it''s ]') FROM [u(])) " ++
    "AS [__rnt] WHERE [__rnt].[__rn] > (1) ORDER BY [__rnt].[__rn] ASC"

/-- The text of the page is closed, and its names are known. -/
theorem sql_spelled_delimiterPage :
    Statement.sql {} (.select delimiterPage) = .ok delimiterPageText ∧
      IsClosed delimiterPageText ∧
      (Statement.select delimiterPage).Spelled {} (some delimiterPage)
        (tokens delimiterPageText) := by
  have hvalues : (Statement.select delimiterValues).IsSealed := by
    refine ⟨fun e he => ?_, by decide, fun _ h => by cases h⟩
    obtain rfl := List.mem_singleton.1 he
    refine Expr.forall_occurs_iff.2 ⟨by decide, fun o ho => ?_⟩
    obtain rfl := List.mem_singleton.1 ho
    exact Expr.forall_occurs_of_leaf rfl (by decide)
  have hpage : (Statement.select delimiterPage).IsSealed := by
    refine ⟨fun e he => ?_, by decide, fun _ h => by cases h⟩
    rcases List.mem_cons.1 he with rfl | he
    · exact Expr.forall_occurs_of_leaf rfl (by decide)
    rcases List.mem_cons.1 he with rfl | he
    · refine Expr.forall_occurs_iff.2 ⟨by decide, fun o ho => ?_⟩
      obtain rfl := List.mem_singleton.1 ho
      exact Expr.forall_occurs_of_leaf rfl (by decide)
    rcases List.mem_cons.1 he with rfl | he
    · exact Expr.forall_occurs_of_leaf rfl (by decide)
    rcases List.mem_cons.1 he with rfl | he
    · exact Expr.forall_occurs_of_leaf rfl (by decide)
    · obtain rfl := List.mem_singleton.1 he
      exact Expr.forall_occurs_of_leaf rfl (by decide)
  have hheld : ∀ q, delimiterPage.Holds q → q = delimiterValues := fun q h =>
    List.mem_singleton.1 (Expr.mem_subqueriesList.2 h)
  have hnone : ∀ q, ¬ delimiterValues.Holds q := fun q h =>
    List.not_mem_nil (Expr.mem_subqueriesList.2 h)
  have hnested : ∀ sub, (Statement.select delimiterPage).Nests sub →
      (Statement.select sub).IsSealed := by
    intro sub h
    have hsub : sub = delimiterValues := by
      induction h with
      | single h => exact hheld _ h
      | tail _ h ih =>
        subst ih
        exact absurd h (hnone _)
    rw [hsub]
    exact hvalues
  have hsql : Statement.sql {} (.select delimiterPage) = .ok delimiterPageText := by
    decide +kernel
  exact ⟨hsql, Statement.sql_spelled (by decide) (by decide) hpage hnested hsql⟩

/-- Options whose lock hint names an index. -/
def indexHint : Options := { lockHint := "WITH(INDEX([ix]))" }

/-- All rows of a table, with the lock of the options. -/
def lockedRows : Select :=
  .of
    { cores := [{ projections := [.star], source := some (.table { name := "t" }) }]
      lock := some .default }

/-- **A hint of the options** may have names of its own: the index is no name of the statement, and
none of the compiler. -/
theorem not_knows_lockedRows :
    IsClosed indexHint.lockHint ∧ IsClosed indexHint.collation ∧
      (Statement.select lockedRows).IsSealed ∧
      (∀ sub, ¬ (Statement.select lockedRows).Nests sub) ∧
      Statement.sql indexHint (.select lockedRows) = .ok "SELECT * FROM [t] WITH(INDEX([ix]))" ∧
      .name "ix" ∈ tokens "SELECT * FROM [t] WITH(INDEX([ix]))" ∧
      ¬ (Statement.select lockedRows).Knows (some lockedRows) "ix" := by
  have hstar : ∀ e ∈ (Statement.select lockedRows).exprs, ∀ x, Expr.Occurs x e → x = .star := by
    intro e he
    obtain rfl := List.mem_singleton.1 he
    exact Expr.forall_occurs_of_leaf rfl rfl
  refine ⟨by decide, by decide, ⟨fun e he x hx => ?_, by decide, fun _ h => by cases h⟩,
    fun sub h => ?_, by decide +kernel, by decide, ?_⟩
  · rw [hstar e he x hx]
    exact trivial
  · have hnone : ∀ q, ¬ lockedRows.Holds q := fun q h =>
      List.not_mem_nil (Expr.mem_subqueriesList.2 h)
    obtain ⟨q, hq, -⟩ := Relation.TransGen.head'_iff.1 h
    exact hnone q hq
  · rintro (h | ⟨q, hq, h⟩)
    · cases h with
      | expr mem occurs label =>
        rw [hstar _ mem _ occurs] at label
        cases label
      | column mem part => cases mem
      | table mem table label =>
        obtain rfl := List.mem_singleton.1 mem
        obtain rfl := List.mem_singleton.1 table
        exact absurd label (by decide)
    · obtain rfl := Option.some.inj hq
      exact absurd h (by decide)

end Transact
