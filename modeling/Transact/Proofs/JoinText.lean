import Transact.Proofs.LockHint
import Transact.Proofs.Plan.Columns
import Transact.Proofs.QueryText
import Transact.Proofs.Sql.Clause

/-!
# The text of joins determines the joins

A source is read back from its text when its conditions are legible: they have no subqueries and no
verbatim text, no apostrophe after a backslash in their constants, and identifiers for the names of
functions. Names of tables and columns may be anything.

* `Expr.clause_sql`, `Expr.begins_sql`, `Expr.ends_sql`: the text of a legible expression can stand
  in a condition.
* `Source.HasTree.passes`: a reader of joins passes from the beginning of a source to its end, with
  the tree of the source.
* `Source.joinTree?_sql`: the text of a source is read as its tree.
-/

set_option autoImplicit false

namespace Transact

open Sql Text

/-! ## Legible expressions -/

namespace Expr

variable {σ τ : Type}

mutual

/-- The expression has neither subqueries nor verbatim text, its functions are called by
identifiers, and no apostrophe of its constants follows a backslash. -/
def isLegible : Expr σ → Bool
  | .column _ => true
  | .wildcard _ => true
  | .literal v => decide (UnslashedIn v)
  | .typed v _ => decide (UnslashedIn v)
  | .aggregate _ args _ => areLegible args
  | .call name args => isRegular name && areLegible args
  | .alias e _ => isLegible e
  | .distinct e => isLegible e
  | .binary l _ r => isLegible l && isLegible r
  | .not e => isLegible e
  | .isNull e _ => isLegible e
  | .inList e list _ => isLegible e && areLegible list
  | .inSubquery _ _ _ => false
  | .grouping e => isLegible e
  | .caseSensitive e => isLegible e
  | .raw _ => false

def areLegible : List (Expr σ) → Bool
  | [] => true
  | e :: es => isLegible e && areLegible es

end

mutual

theorem isLegible_map (f : σ → τ) : ∀ e : Expr σ, (e.map f).isLegible = e.isLegible
  | .column _ | .wildcard _ | .literal _ | .typed _ _ | .raw _ | .inSubquery _ _ _ => rfl
  | .aggregate _ args _ | .call _ args => by
    rw [map, isLegible, isLegible, areLegible_mapList f args]
  | .alias e _ | .distinct e | .not e | .isNull e _ | .grouping e | .caseSensitive e => by
    rw [map, isLegible, isLegible, isLegible_map f e]
  | .binary l _ r => by rw [map, isLegible, isLegible, isLegible_map f l, isLegible_map f r]
  | .inList e list _ => by
    rw [map, isLegible, isLegible, isLegible_map f e, areLegible_mapList f list]

theorem areLegible_mapList (f : σ → τ) : ∀ es : List (Expr σ),
    areLegible (mapList f es) = areLegible es
  | [] => rfl
  | e :: es => by
    rw [mapList, areLegible, areLegible, isLegible_map f e, areLegible_mapList f es]

end

mutual

theorem subqueries_of_isLegible : ∀ {e : Expr σ}, e.isLegible = true → e.subqueries = []
  | .column _, _ | .wildcard _, _ | .literal _, _ | .typed _ _, _ => rfl
  | .aggregate _ args _, h => by
    rw [isLegible] at h
    exact subqueriesList_of_areLegible h
  | .call _ args, h => by
    rw [isLegible, Bool.and_eq_true] at h
    exact subqueriesList_of_areLegible h.2
  | .alias e _, h | .distinct e, h | .not e, h | .isNull e _, h | .grouping e, h
  | .caseSensitive e, h => subqueries_of_isLegible (e := e) h
  | .binary l _ r, h => by
    rw [isLegible, Bool.and_eq_true] at h
    rw [subqueries, subqueries_of_isLegible h.1, subqueries_of_isLegible h.2]
    rfl
  | .inList e list _, h => by
    rw [isLegible, Bool.and_eq_true] at h
    rw [subqueries, subqueries_of_isLegible h.1, subqueriesList_of_areLegible h.2]
    rfl
  | .inSubquery _ _ _, h | .raw _, h => by cases h

theorem subqueriesList_of_areLegible : ∀ {es : List (Expr σ)}, areLegible es = true →
    subqueriesList es = []
  | [], _ => rfl
  | e :: es, h => by
    rw [areLegible, Bool.and_eq_true] at h
    rw [subqueriesList, subqueries_of_isLegible h.1, subqueriesList_of_areLegible h.2]
    rfl

end

/-! ## Their texts -/

variable {collation : String}

theorem separator_operator (op : BinaryOp) : Separator (" " ++ op.keyword ++ " ") := by
  cases op <;> exact ⟨fun _ => rfl, rfl, by decide, by decide⟩

theorem bridges_operator (op : BinaryOp) : Bridges (Sql.tokens (" " ++ op.keyword ++ " ")) := by
  cases op <;> decide

theorem opener_among (negated : Bool) : Opener (" " ++ (negation negated ++ "IN (")) := by
  cases negated with
  | true =>
    exact ⟨fun _ => rfl, rfl, ⟨[.word "NOT", .word "IN"], by decide, by decide, by decide⟩,
      by decide⟩
  | false => exact ⟨fun _ => rfl, rfl, ⟨[.word "IN"], by decide, by decide, by decide⟩, by decide⟩

mutual

/-- **The text of a legible expression** is a clause. -/
theorem clause_sql (hcollation : isRegular collation = true) : ∀ {e : Expr String},
    e.isLegible = true → Clause (e.sql collation)
  | .column c, _ => by
    rw [sql, sql_column]
    exact .path (by simp [ColumnRef.path])
  | .wildcard none, _ => by
    rw [sql]
    exact .of_isClosed (by decide) (by decide)
  | .wildcard (some table), _ => by
    have hparts : nameParts table ≠ [] := by simp [nameParts, split_ne_nil]
    rw [sql, dottedName_eq]
    exact (Clause.path hparts).followed (by decide) (by decide) (by simp [Stops, stopChars])
  | .literal v, h => by
    rw [isLegible, decide_eq_true_eq] at h
    exact (constantText_literal h none).clause
  | .typed v ty, h => by
    rw [isLegible, decide_eq_true_eq] at h
    exact (constantText_literal h (some ty)).clause
  | .aggregate fn args d, h => by
    have hkeyword : Clause fn.keyword := by cases fn <;> exact .regular (by decide)
    rw [isLegible] at h
    have hargs := clause_sqlList hcollation h
    have hlist : Clause (if args.isEmpty then "*" else join ", " (sqlList collation args)) := by
      split
      · exact .of_isClosed (by decide) (by decide)
      · exact hargs
    have hmarked : Clause ((if d then "DISTINCT " else "") ++
        if args.isEmpty then "*" else join ", " (sqlList collation args)) := by
      cases d with
      | true => exact hlist.distinct
      | false => simpa using hlist
    rw [sql]
    simpa only [String.append_assoc] using hkeyword.enclosed opener_paren hmarked
  | .call name args, h => by
    rw [isLegible, Bool.and_eq_true] at h
    rw [sql]
    exact (Clause.regular h.1).enclosed opener_paren (clause_sqlList hcollation h.2)
  | .alias e name, h => by
    rw [sql]
    exact (clause_sql hcollation (e := e) h).separated separator_as (by decide) (.name name)
  | .distinct e, h => by
    rw [sql]
    exact (clause_sql hcollation (e := e) h).distinct
  | .binary l op r, h => by
    rw [isLegible, Bool.and_eq_true] at h
    have hclause := (clause_sql hcollation h.1).separated (separator_operator op)
      (bridges_operator op) (clause_sql hcollation h.2)
    rw [sql]
    simpa only [String.append_assoc] using hclause
  | .not e, h => by
    have hnot : Clause "NOT" := .regular (by decide)
    have htext : "NOT (" = "NOT" ++ " (" := by decide
    rw [sql, htext]
    exact hnot.enclosed opener_blank (clause_sql hcollation (e := e) h)
  | .isNull e n, h => by
    have hnull : Clause (negation n ++ "NULL") := by
      cases n <;> exact .of_isClosed (by decide) (by decide)
    rw [sql, String.append_assoc]
    exact (clause_sql hcollation (e := e) h).separated separator_is (by decide) hnull
  | .inList e list n, h => by
    rw [isLegible, Bool.and_eq_true] at h
    have hclause := (clause_sql hcollation h.1).enclosed (opener_among n)
      (clause_sqlList hcollation h.2)
    rw [sql]
    simpa only [String.append_assoc] using hclause
  | .grouping e, h => by
    have hclause := Clause.empty.enclosed opener_paren (clause_sql hcollation (e := e) h)
    rwa [String.empty_append, ← sql] at hclause
  | .caseSensitive e, h => by
    rw [sql]
    exact (clause_sql hcollation (e := e) h).separated separator_collate (by decide)
      (.regular hcollation)
  | .inSubquery _ _ _, h | .raw _, h => by cases h

theorem clause_sqlList (hcollation : isRegular collation = true) : ∀ {es : List (Expr String)},
    areLegible es = true → Clause (join ", " (sqlList collation es))
  | [], _ => .empty
  | [e], h => by
    rw [areLegible, areLegible, Bool.and_true] at h
    exact clause_sql hcollation h
  | e :: e' :: es, h => by
    rw [areLegible, Bool.and_eq_true] at h
    have hrest : Clause (join ", " (sqlList collation (e' :: es))) := clause_sqlList hcollation h.2
    exact (clause_sql hcollation h.1).separated separator_comma (by decide) hrest

end

/-- The text of a legible expression begins with no blank. -/
theorem begins_sql : ∀ {e : Expr String}, e.isLegible = true → Begins (e.sql collation)
  | .column c, _ => by
    rw [sql, sql_column]
    exact begins_path (by simp [ColumnRef.path])
  | .wildcard none, _ => by
    rw [sql]
    exact ⟨'*', [], rfl, by decide⟩
  | .wildcard (some table), _ => by
    rw [sql, dottedName_eq]
    exact (begins_path (by simp [nameParts, split_ne_nil])).append _
  | .literal v, h => by
    rw [isLegible, decide_eq_true_eq] at h
    exact (constantText_literal h none).begins
  | .typed v ty, h => by
    rw [isLegible, decide_eq_true_eq] at h
    exact (constantText_literal h (some ty)).begins
  | .aggregate fn args d, _ => by
    have hkeyword : Begins fn.keyword := by cases fn <;> exact begins_regular (by decide)
    rw [sql]
    simpa only [String.append_assoc] using hkeyword.append _
  | .call name args, h => by
    rw [isLegible, Bool.and_eq_true] at h
    rw [sql]
    simpa only [String.append_assoc] using (begins_regular h.1).append _
  | .alias e _, h | .isNull e _, h | .caseSensitive e, h => by
    rw [sql]
    simpa only [String.append_assoc] using (begins_sql (e := e) h).append _
  | .binary l _ _, h | .inList l _ _, h => by
    rw [isLegible, Bool.and_eq_true] at h
    rw [sql]
    simpa only [String.append_assoc] using (begins_sql h.1).append _
  | .distinct e, _ => by
    rw [sql]
    exact Begins.append ⟨'D', _, rfl, by decide⟩ _
  | .not e, _ => by
    rw [sql, String.append_assoc]
    exact Begins.append ⟨'N', _, rfl, by decide⟩ _
  | .grouping e, _ => by
    rw [sql, String.append_assoc]
    exact Begins.append ⟨'(', _, rfl, by decide⟩ _
  | .inSubquery _ _ _, h | .raw _, h => by cases h

/-- The text of a legible expression ends with no blank. -/
theorem ends_sql (hcollation : isRegular collation = true) : ∀ {e : Expr String},
    e.isLegible = true → Ends (e.sql collation)
  | .column c, _ => by
    rw [sql, sql_column]
    exact ends_path (by simp [ColumnRef.path])
  | .wildcard none, _ => by
    rw [sql]
    exact ⟨[], '*', rfl, by decide⟩
  | .wildcard (some table), _ => by
    rw [sql]
    exact Ends.append ⟨['.'], '*', rfl, by decide⟩ _
  | .literal v, h => by
    rw [isLegible, decide_eq_true_eq] at h
    exact (constantText_literal h none).ends
  | .typed v ty, h => by
    rw [isLegible, decide_eq_true_eq] at h
    exact (constantText_literal h (some ty)).ends
  | .aggregate _ _ _, _ | .call _ _, _ | .not _, _ | .inList _ _ _, _ | .grouping _, _ => by
    rw [sql]
    exact Ends.append ⟨[], ')', rfl, by decide⟩ _
  | .alias _ name, _ => by
    rw [sql]
    exact (ends_name name).append _
  | .distinct e, h => by
    rw [sql]
    exact (ends_sql hcollation (e := e) h).append _
  | .binary _ _ r, h => by
    rw [isLegible, Bool.and_eq_true] at h
    rw [sql]
    exact (ends_sql hcollation h.2).append _
  | .isNull _ _, _ => by
    rw [sql]
    exact Ends.append ⟨['N', 'U', 'L'], 'L', rfl, by decide⟩ _
  | .caseSensitive _, _ => by
    rw [sql]
    exact (ends_regular hcollation).append _
  | .inSubquery _ _ _, h | .raw _, h => by cases h

/-- The text is that of the expression, which is legible. -/
def Spells (collation : String) (e : Expr String) (text : String) : Prop :=
  e.isLegible = true ∧ e.sql collation = text

end Expr

/-! ## Trees of sources -/

namespace Source

section

variable {σ : Type}

/-- The source is made of tables and of joins with keywords, and all of these but cross joins have
legible conditions. -/
def isLegible : Source σ → Bool
  | .table _ => true
  | .raw _ => false
  | .join kind left right condition =>
    isLegible left && isLegible right &&
      match kind with
      | .fragment => false
      | .cross => true
      | _ => condition.any Expr.isLegible

/-- The tree of joins that a source is, given what text its conditions have. -/
inductive HasTree (spells : Expr σ → String → Prop) : Source σ → JoinTree → Prop
  | table (t : TableRef) : HasTree spells (.table t) (.table t.schema t.name t.aliasName)
  | cross {left right : Source σ} {leftTree rightTree : JoinTree} (condition : Option (Expr σ))
      (hleft : HasTree spells left leftTree) (hright : HasTree spells right rightTree) :
      HasTree spells (.join .cross left right condition) (.join .cross leftTree rightTree none)
  | on {kind : JoinKind} {left right : Source σ} {leftTree rightTree : JoinTree} {e : Expr σ}
      {text : String} (hcross : kind ≠ .cross) (hfragment : kind ≠ .fragment)
      (hleft : HasTree spells left leftTree) (hright : HasTree spells right rightTree)
      (htext : spells e text) :
      HasTree spells (.join kind left right (some e)) (.join kind leftTree rightTree (some text))

theorem mapM_on {τ : Type} {kind : JoinKind} (hcross : kind ≠ .cross) (hfragment : kind ≠ .fragment)
    (f : σ → Trace τ) (left right : Source σ) (e : Expr σ) :
    (Source.join kind left right (some e)).mapM f =
      left.mapM f >>= fun left => right.mapM f >>= fun right => e.mapM f >>= fun e =>
        pure (.join kind left right (some e)) := by
  cases kind with
  | cross => exact absurd rfl hcross
  | fragment => exact absurd rfl hfragment
  | inner | leftOuter | rightOuter | fullOuter => rfl

theorem isLegible_join {kind : JoinKind} {left right : Source σ} {condition : Option (Expr σ)}
    (h : (Source.join kind left right condition).isLegible = true) :
    left.isLegible = true ∧ right.isLegible = true ∧ (kind = .cross ∨
      kind ≠ .cross ∧ kind ≠ .fragment ∧ ∃ e, condition = some e ∧ e.isLegible = true) := by
  unfold isLegible at h
  rw [Bool.and_eq_true, Bool.and_eq_true] at h
  obtain ⟨⟨hleft, hright⟩, hjoin⟩ := h
  refine ⟨hleft, hright, ?_⟩
  cases kind with
  | cross => exact .inl rfl
  | fragment => cases hjoin
  | inner | leftOuter | rightOuter | fullOuter =>
    exact .inr ⟨by decide, by decide, (Option.any_eq_true ..).1 hjoin⟩

end

/-! ## Their texts -/

variable {collation : String}

/-- The text of the right side of a join. -/
def operandSql (collation : String) (s : Source String) : String :=
  if s.isJoin then "(" ++ s.sql collation none ++ ")" else s.sql collation none

theorem sql_cross (left right : Source String) (condition : Option (Expr String)) :
    (Source.join .cross left right condition).sql collation none =
      left.sql collation none ++ (" " ++ JoinKind.cross.keyword ++ " ") ++
        right.operandSql collation := by
  simp only [sql, operandSql, String.append_assoc]

theorem sql_on {kind : JoinKind} (hcross : kind ≠ .cross) (hfragment : kind ≠ .fragment)
    (left right : Source String) (e : Expr String) :
    (Source.join kind left right (some e)).sql collation none =
      left.sql collation none ++ (" " ++ kind.keyword ++ " ") ++
        (right.operandSql collation ++ " ON " ++ e.sql collation) := by
  cases kind with
  | cross => exact absurd rfl hcross
  | fragment => exact absurd rfl hfragment
  | inner | leftOuter | rightOuter | fullOuter =>
    simp only [sql, operandSql, String.append_assoc]

theorem starts_keyword (kind : JoinKind) : Starts (" " ++ kind.keyword ++ " ") := by
  cases kind <;> rfl

theorem breaks_keyword {kind : JoinKind} (hkind : kind ≠ .fragment) :
    Breaks (" " ++ kind.keyword ++ " ") := by
  cases kind with
  | fragment => exact absurd rfl hkind
  | inner | leftOuter | rightOuter | fullOuter | cross => exact fun _ => rfl

theorem breaks_on : Breaks " ON " := fun _ => rfl

/-- All that the text of a table opens ends in it. -/
theorem tidy_table (t : TableRef) : Tidy (fun _ => True) t.sql := by
  have hpath : Clause (Text.join "." ((t.schema.toList ++ [t.name]).map Sql.name)) :=
    .path (by simp)
  rw [TableRef.sql]
  cases t.aliasName with
  | none => exact hpath.forget
  | some name => exact hpath.forget.separated separator_as (.name trivial)

theorem tidy_operandSql {s : Source String} (h : Tidy (fun _ => True) (s.sql collation none)) :
    Tidy (fun _ => True) (s.operandSql collation) := by
  unfold operandSql
  split
  · exact .enclosed opens_paren h
  · exact h

theorem tidy_join {left right : String} (kind : JoinKind) (hleft : Tidy (fun _ => True) left)
    (hright : Tidy (fun _ => True) right) :
    Tidy (fun _ => True) (left ++ (" " ++ kind.keyword ++ " ") ++ right) := by
  have hkeyword : Tidy (fun _ => True) kind.keyword := .of_plain (by cases kind <;> rfl)
  simpa only [String.append_assoc] using
    (hleft.separated separator_blank hkeyword).separated separator_blank hright

/-- All that the text of a legible source opens ends in it. -/
theorem HasTree.tidy (hcollation : isRegular collation = true) {s : Source String}
    {tree : JoinTree} (h : s.HasTree (Expr.Spells collation) tree) :
    Tidy (fun _ => True) (s.sql collation none) := by
  induction h with
  | table t => exact tidy_table t
  | cross condition _ _ ihleft ihright =>
    rw [sql_cross]
    exact tidy_join .cross ihleft (tidy_operandSql ihright)
  | on hcross hfragment _ _ htext ihleft ihright =>
    rw [sql_on hcross hfragment]
    have hcondition := (Expr.clause_sql hcollation htext.1).forget
    exact tidy_join _ ihleft ((tidy_operandSql ihright).separated separator_on hcondition)

/-! ## Reading them -/

/-- From the beginning of an operand, with `opened` open, a reader passes over the text. Then
`settled` is what is open and what has been read. -/
def Passes (opened : List Opening) (text : String) (rest : List Lexeme)
    (settled : List Opening × JoinTree) : Prop :=
  ∃ rd : JoinReader, JoinReader.run? ⟨opened, .operand⟩ (lexemes text ++ rest) =
    JoinReader.run? rd rest ∧ rd.settle? = some settled

/-- The lexemes do not go on with the keyword of a join, as `JOIN` does after `LEFT`. -/
def Rests (rest : List Lexeme) : Prop :=
  ∀ t ∈ (rest.filterMap Lexeme.token).head?, t.joins = false

theorem rests_keyword {kind : JoinKind} (hkind : kind ≠ .fragment) (rest : List Lexeme) :
    Rests (lexemes (" " ++ kind.keyword ++ " ") ++ rest) := by
  obtain ⟨w, tail, hlexemes, hspells⟩ := JoinReader.exists_spellsKeyword hkind
  have hother := hspells.other
  simp only [List.mem_cons, List.not_mem_nil, or_false, not_or] at hother
  rw [Rests, hlexemes]
  intro t ht
  cases ht
  simp [Token.joins, hother]

theorem rests_rparen (spelling : List Char) (rest : List Lexeme) :
    Rests (⟨some .rparen, spelling⟩ :: rest) := by
  intro t ht
  cases ht
  rfl

/-- **A join in parentheses** is one operand. -/
theorem passes_parens {opened : List Opening} {text : String} {rest : List Lexeme} {tree : JoinTree}
    (hclosed : .unclosed ∉ tokens text)
    (h : Passes (.paren :: opened) text (⟨some .rparen, [')']⟩ :: rest) (.paren :: opened, tree)) :
    Passes opened ("(" ++ text ++ ")") rest (close opened tree) := by
  have hopen : Breaks "(" := fun _ => rfl
  have hlexemes : lexemes ("(" ++ text ++ ")") =
      ⟨some .lparen, ['(']⟩ :: (lexemes text ++ [⟨some .rparen, [')']⟩]) := by
    rw [String.append_assoc, hopen.lexemes_append,
      lexemes_append hclosed (by simp [Stops, stopChars])]
    rfl
  obtain ⟨rd, hrun, hsettle⟩ := h
  refine ⟨⟨(close opened tree).1, .whole (close opened tree).2⟩, ?_, rfl⟩
  calc JoinReader.run? ⟨opened, .operand⟩ (lexemes ("(" ++ text ++ ")") ++ rest)
      = JoinReader.run? ⟨.paren :: opened, .operand⟩
          (lexemes text ++ (⟨some .rparen, [')']⟩ :: rest)) := by
        rw [hlexemes, List.cons_append, List.append_assoc]
        rfl
    _ = JoinReader.run? rd (⟨some .rparen, [')']⟩ :: rest) := hrun
    _ = _ := JoinReader.run?_rparen hsettle

/-- A source is read as the right side of a join, once it is read where no join waits for it. -/
theorem HasTree.passes_operand {s : Source String} {tree : JoinTree}
    {spells : Expr String → String → Prop} (hs : s.HasTree spells tree)
    (hclosed : .unclosed ∉ tokens (s.sql collation none))
    (h : ∀ opened rest, (∀ o ∈ opened.head?, o = .paren) → Rests rest →
      Passes opened (s.sql collation none) rest (opened, tree))
    (opened : List Opening) (rest : List Lexeme) :
    Passes opened (s.operandSql collation) rest (close opened tree) := by
  have hparens : Passes opened ("(" ++ s.sql collation none ++ ")") rest (close opened tree) :=
    passes_parens hclosed (h _ _ (by rintro _ ⟨⟩; rfl) (rests_rparen _ _))
  cases hs with
  | table t => exact JoinReader.run?_table t opened rest
  | cross | on => exact hparens

/-- The left side of a join and its keyword, before what the join goes on with. -/
theorem passes_join {opened : List Opening} {kind : JoinKind} {left text : String}
    {leftTree : JoinTree} {rest : List Lexeme} {settled : List Opening × JoinTree}
    (hkind : kind ≠ .fragment) (hclosed : .unclosed ∉ tokens left)
    (hleft : ∀ rest, Rests rest → Passes opened left rest (opened, leftTree))
    (h : Passes (.join leftTree kind :: opened) text rest settled) :
    Passes opened (left ++ (" " ++ kind.keyword ++ " ") ++ text) rest settled := by
  obtain ⟨rd', hrun', hsettle'⟩ := h
  obtain ⟨rd, hrun, hsettle⟩ := hleft _ (rests_keyword hkind (lexemes text ++ rest))
  refine ⟨rd', ?_, hsettle'⟩
  rw [lexemes_separated hclosed (starts_keyword kind) (breaks_keyword hkind), List.append_assoc,
    List.append_assoc, hrun, JoinReader.run?_keyword hsettle hkind, hrun']

/-- The right side of a join and its condition. -/
theorem passes_on {opened : List Opening} {kind : JoinKind} {right : String}
    {leftTree rightTree : JoinTree} {e : Expr String} {rest : List Lexeme}
    (hcollation : isRegular collation = true) (hopened : ∀ o ∈ opened.head?, o = .paren)
    (hrest : Rests rest) (hclosed : .unclosed ∉ tokens right) (he : e.isLegible = true)
    (hright : ∀ rest, Passes (.join leftTree kind :: opened) right rest
      (.join leftTree kind :: opened, rightTree)) :
    Passes (.join leftTree kind :: opened) (right ++ " ON " ++ e.sql collation) rest
      (opened, .join kind leftTree rightTree (some (e.sql collation))) := by
  have htokens := (Expr.clause_sql hcollation he).tokens
  obtain ⟨b, hquiet⟩ := htokens.good
  have hsnug : IsSnug (e.sql collation).toList :=
    isSnug_iff.2 ⟨Expr.begins_sql he, Expr.ends_sql hcollation he⟩
  obtain ⟨rd, hrun, hsettle⟩ := hright (lexemes " ON " ++ (lexemes (e.sql collation) ++ rest))
  obtain ⟨rd', hrun', hsettle'⟩ :=
    JoinReader.run?_conditionText hopened hrest htokens.matched hquiet hsnug
  refine ⟨rd', ?_, hsettle'⟩
  rw [lexemes_separated hclosed separator_on.starts breaks_on, List.append_assoc,
    List.append_assoc, hrun, JoinReader.run?_on hsettle, hrun']

/-- **A legible source** is read as its tree, where no join waits for it. -/
theorem HasTree.passes (hcollation : isRegular collation = true) {s : Source String}
    {tree : JoinTree} (h : s.HasTree (Expr.Spells collation) tree) :
    ∀ (opened : List Opening) (rest : List Lexeme), (∀ o ∈ opened.head?, o = .paren) → Rests rest →
      Passes opened (s.sql collation none) rest (opened, tree) := by
  induction h with
  | table t =>
    intro opened rest hopened _
    rw [← close_of_fresh hopened]
    exact JoinReader.run?_table t opened rest
  | @cross left right leftTree rightTree condition hleft hright ihleft ihright =>
    intro opened rest hopened _
    -- the left side is read with the same joins open, the right side with this join open as well
    have hoperand := hright.passes_operand (hright.tidy hcollation).tokens.ends ihright
      (.join leftTree .cross :: opened) rest
    rw [close, close_of_fresh hopened] at hoperand
    rw [sql_cross]
    exact passes_join (by decide) (hleft.tidy hcollation).tokens.ends (ihleft opened · hopened)
      hoperand
  | @on kind left right leftTree rightTree e text hcross hfragment hleft hright htext ihleft
      ihright =>
    intro opened rest hopened hrest
    obtain ⟨he, rfl⟩ := htext
    have hright' := hright.tidy hcollation
    have hoperand := hright.passes_operand hright'.tokens.ends ihright
      (.join leftTree kind :: opened)
    -- unlike a cross join, this one is still open after its right side
    have hwaits : close (.join leftTree kind :: opened) rightTree =
        (.join leftTree kind :: opened, rightTree) := by
      cases kind <;> first | rfl | exact absurd rfl hcross
    rw [hwaits] at hoperand
    rw [sql_on hcross hfragment]
    exact passes_join hfragment (hleft.tidy hcollation).tokens.ends (ihleft opened · hopened)
      (passes_on hcollation hopened hrest (tidy_operandSql hright').tokens.ends he hoperand)

end Source

/-! ## Sources that are compiled -/

section

variable {σ : Type} (subquery : σ → Trace Query)

/-- The text is that of the expression, once it is compiled. -/
def Expr.CompilesTo (collation : String) (e : Expr σ) (text : String) : Prop :=
  ∃ e', (e.mapM subquery).result = .ok e' ∧ e'.querySql collation = text

/-- A legible condition is compiled, and is legible then. -/
theorem Expr.mapM_of_isLegible {e : Expr σ} (he : e.isLegible = true) : ∃ e',
    (e.mapM subquery).result = .ok e' ∧ e'.isLegible = true := by
  have hsubqueries := subqueries_of_isLegible he
  obtain ⟨e', he'⟩ :=
    ((e.runs_mapM subquery).isOk_iff (List.Subset.refl _)).2 (by simp [hsubqueries])
  refine ⟨e', he', ?_⟩
  rw [← isLegible_map fun _ => (), map_unit_mapM he', isLegible_map, he]

namespace Source

/-- A legible source is compiled, to one with the same tree. -/
theorem mapM_of_isLegible (collation : String) : ∀ {s : Source σ}, s.isLegible = true → ∃ q tree,
    (s.mapM subquery).result = .ok q ∧ s.HasTree (Expr.CompilesTo subquery collation) tree ∧
      (q.map (Query.sql collation)).HasTree (Expr.Spells collation) tree
  | .table t, _ => ⟨.table t, _, rfl, .table t, .table t⟩
  | .raw _, h => by cases h
  | .join kind left right condition, h => by
    obtain ⟨hleft, hright, hjoin⟩ := isLegible_join h
    obtain ⟨left', leftTree, hl, hltree, hltree'⟩ := mapM_of_isLegible collation hleft
    obtain ⟨right', rightTree, hr, hrtree, hrtree'⟩ := mapM_of_isLegible collation hright
    rcases hjoin with rfl | ⟨hcross, hfragment, e, rfl, he⟩
    · refine ⟨.join .cross left' right' none, _, ?_, .cross _ hltree hrtree,
        .cross _ hltree' hrtree'⟩
      exact Trace.bind_eq_ok.2 ⟨left', hl, Trace.bind_eq_ok.2 ⟨right', hr, rfl⟩⟩
    · obtain ⟨e', he', hlegible⟩ := Expr.mapM_of_isLegible subquery he
      refine ⟨.join kind left' right' (some e'), _, ?_,
        .on hcross hfragment hltree hrtree ⟨e', he', rfl⟩,
        .on hcross hfragment hltree' hrtree' ⟨?_, rfl⟩⟩
      · rw [mapM_on hcross hfragment]
        exact Trace.bind_eq_ok.2 ⟨left', hl, Trace.bind_eq_ok.2 ⟨right', hr,
          Trace.bind_eq_ok.2 ⟨e', he', rfl⟩⟩⟩
      · rw [Expr.isLegible_map, hlegible]

/-- **The text of joins determines the joins**: a legible source is compiled, and its text is read
as its tree. -/
theorem joinTree?_sql {collation : String} (hcollation : isRegular collation = true) {s : Source σ}
    (hs : s.isLegible = true) : ∃ q tree, (s.mapM subquery).result = .ok q ∧
      s.HasTree (Expr.CompilesTo subquery collation) tree ∧
      joinTree? (q.querySql collation none) = some tree := by
  obtain ⟨q, tree, hq, htree, hcompiled⟩ := mapM_of_isLegible subquery collation hs
  refine ⟨q, tree, hq, htree, ?_⟩
  obtain ⟨rd, hrun, hsettle⟩ := hcompiled.passes hcollation [] [] (by simp) (by simp [Rests])
  rw [List.append_nil] at hrun
  rw [joinTree?, querySql, hrun, JoinReader.run?, hsettle]
  rfl

end Source

end

/-- Orders with their lines and items, whether they have any, and all days. -/
def orderLines : Source Empty :=
  .join .cross
    (.join .leftOuter (.table { name := "JOIN] (", schema := some "dbo", aliasName := some "o" })
      (.join .inner (.table { name := "lines" }) (.table { name := " ON " })
        (some (.binary (.qualified "lines" "item") .eq (.qualified " ON " "id"))))
      (some (.binary (.call "LEFT" [.qualified "o" "code", .int 1]) .eq
        (.textConstant ") INNER JOIN"))))
    (.table { name := "days" }) (some (.raw "1 = 1"))

def orderLinesText : String :=
  "[dbo].[JOIN]] (] AS [o] LEFT OUTER JOIN " ++
    "([lines] INNER JOIN [ ON ] ON [lines].[item] = [ ON ].[id]) " ++
    "ON LEFT([o].[code], 1) = N') INNER JOIN' CROSS JOIN [days]"

theorem Source.joinTree?_sql_orderLines : ∃ tree,
    orderLines.HasTree (Expr.CompilesTo Empty.elim "Latin1_General_CS_AS_WS") tree ∧
      joinTree? orderLinesText = some tree := by
  have hcollation : isRegular "Latin1_General_CS_AS_WS" = true := by decide
  have hlegible : orderLines.isLegible = true := by decide +kernel
  obtain ⟨q, tree, hq, htree, hread⟩ := joinTree?_sql Empty.elim hcollation hlegible
  have htext : (orderLines.mapM (Empty.elim : Empty → Trace Query)).result.map
      (·.querySql "Latin1_General_CS_AS_WS" none) = .ok orderLinesText := by
    decide +kernel
  rw [hq] at htext
  have hsql : q.querySql "Latin1_General_CS_AS_WS" none = orderLinesText := Except.ok.inj htext
  rw [hsql] at hread
  exact ⟨tree, htree, hread⟩

end Transact
