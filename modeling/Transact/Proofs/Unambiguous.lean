import Transact.Proofs.Plan.Scope
import Transact.Proofs.Sql.Expression
import Transact.Proofs.Where

/-!
# Explicit expressions are written unambiguously

An expression whose parentheses say how its operators are nested is read back from its text, so two
such expressions never have the same text.

* `Expr.reads_sql`: the text of an explicit expression has the tokens of the expression.
* `Expr.mapM_of_explicit`: an explicit expression is compiled as it stands.
* `Scope.expression?_sql`: the text is read back as the expression.
-/

set_option autoImplicit false

namespace Transact

open Sql Text

/-! ## Texts -/

namespace Sql

theorem apostrophesAlone_of_notMem {s : String} (h : apostrophe ∉ s.toList) :
    ApostrophesAlone s := by
  refine ⟨fun hpair => ?_, fun hback => ?_⟩
  · exact h (hpair.subset List.mem_cons_self)
  · exact h (hback.subset (List.mem_cons_of_mem _ List.mem_cons_self))

theorem reads_identifier {w : String} (hw : isIdentifier w = true) : Reads w [.word w] := by
  simp only [isIdentifier, Bool.and_eq_true] at hw
  refine Reads.word (fun hnil => ?_) hw.1.2
  rw [hnil] at hw
  cases hw.1.1

/-- The text of a constant without escapes has the tokens of the constant. -/
theorem reads_constant {v : Literal} (hv : isPlainConstant v = true) :
    Reads (literal v none) (Expr.constantTokens v) := by
  cases v with
  | null => exact Reads.word (by decide) (by decide)
  | integer i => exact Reads.integer i.toInt
  | string s =>
    simp only [isPlainConstant, Bool.and_eq_true, Bool.not_eq_true', List.contains_eq_mem,
      decide_eq_false_iff_not] at hv
    exact Reads.national (apostrophesAlone_of_notMem hv.1)
  | binary bytes =>
    have hne : (hex bytes).toList ≠ [] := by simp [hex]
    exact Reads.word hne (all_isWordChar_hex bytes)
  | boolean _ | float _ | date _ | dateTime _ | time _ => cases hv

end Sql

namespace Expr

variable {σ : Type} {collation : String}

theorem leads_negation (negated : Bool) : Leads (negation negated) (negationTokens negated) := by
  cases negated <;> exact fun _ => rfl

/-- Two operands with an operator between them. -/
theorem reads_operator (op : BinaryOp) {a b : String} {as bs : List Token} (ha : Reads a as)
    (hb : Reads b bs) : Reads (a ++ " " ++ op.keyword ++ " " ++ b) (as ++ opTokens op ++ bs) := by
  have hop : Reads op.keyword (opTokens op) := by
    cases op <;> exact Reads.of_closed (by decide)
  exact (ha.blank hop).blank hb

-- the texts of subqueries do not matter, since an explicit expression has none
mutual

/-- **The text of an explicit expression** has the tokens of the expression. -/
theorem reads_sql (hcollation : isIdentifier collation = true) (f : σ → String) :
    ∀ e : Expr σ, e.isExplicit = true → Reads ((e.map f).sql collation) (e.tokens collation)
  | .column c, _ => by
    rw [map, sql, sql_column]
    exact Reads.path (by simp [ColumnRef.path])
  | .literal v, h => reads_constant h
  | .aggregate fn args d, h => by
    have hfn : Reads fn.keyword [.word fn.keyword] := by
      cases fn <;> exact Reads.word (by decide) (by decide)
    have hopen : Leads "(" [.lparen] := fun _ => rfl
    have hclose : Leads ")" [.rparen] := fun _ => rfl
    have hdistinct : Leads (if d then "DISTINCT " else "")
        (if d then [.word Keyword.distinct.text] else []) := by
      cases d <;> exact fun _ => rfl
    have hstar : Reads "*" [.sign "*"] := Reads.sign (by decide) (by decide)
    have hargs := reads_sqlList hcollation f args h
    have hlist : Reads (if (mapList f args).isEmpty then "*" else
        join ", " (sqlList collation (mapList f args)))
        (if args.isEmpty then [.sign "*"] else tokensList collation args) := by
      cases args with
      | nil => exact hstar
      | cons e es => exact hargs
    exact ((((hfn.lead hopen rfl).lead hdistinct).read hlist).lead hclose rfl).reads
  | .call g args, h => by
    simp only [isExplicit, Bool.and_eq_true] at h
    have hopen : Leads "(" [.lparen] := fun _ => rfl
    have hclose : Leads ")" [.rparen] := fun _ => rfl
    have hargs := reads_sqlList hcollation f args h.2
    exact ((((reads_identifier h.1.1).lead hopen rfl).read hargs).lead hclose rfl).reads
  | .grouping e, h => (reads_sql hcollation f e h).parens
  | .not e, h => by
    have hopen : Leads "NOT (" [.word Keyword.not.text, .lparen] := fun _ => rfl
    have hclose : Leads ")" [.rparen] := fun _ => rfl
    exact ((hopen.read (reads_sql hcollation f e h)).lead hclose rfl).reads
  | .caseSensitive e, h => by
    simp only [isExplicit, Bool.and_eq_true] at h
    have hword : Leads " COLLATE " [.word Keyword.collate.text] := fun _ => rfl
    have hread := ((reads_sql hcollation f e h.2).lead hword rfl).read
      (reads_identifier hcollation)
    rwa [List.append_assoc] at hread
  | .binary l op r, h => by
    simp only [isExplicit, Bool.and_eq_true] at h
    exact reads_operator op (reads_sql hcollation f l h.1.1.2) (reads_sql hcollation f r h.2)
  | .isNull e negated, h => by
    simp only [isExplicit, Bool.and_eq_true] at h
    have hword : Leads " IS " [.word Keyword.is.text] := fun _ => rfl
    have hnull : Reads "NULL" [.word Keyword.null.text] := Reads.word (by decide) (by decide)
    exact (((reads_sql hcollation f e h.2).lead hword rfl).lead (leads_negation negated)).read hnull
  | .inList e list negated, h => by
    simp only [isExplicit, Bool.and_eq_true] at h
    have hblank : Leads " " [] := fun _ => rfl
    have hopen : Leads "IN (" [.word Keyword.among.text, .lparen] := fun _ => rfl
    have hclose : Leads ")" [.rparen] := fun _ => rfl
    have hread := (((((reads_sql hcollation f e h.1.2).lead hblank rfl).lead
      (leads_negation negated)).lead hopen).read (reads_sqlList hcollation f list h.2)).lead
        hclose rfl
    rw [List.append_nil] at hread
    exact hread.reads
  | .wildcard _, h | .typed _ _, h | .alias _ _, h | .distinct _, h | .inSubquery _ _ _, h
  | .raw _, h => by cases h

theorem reads_sqlList (hcollation : isIdentifier collation = true) (f : σ → String) :
    ∀ es : List (Expr σ), areExplicit es = true →
      Reads (join ", " (sqlList collation (mapList f es))) (tokensList collation es)
  | [], _ => fun _ _ => rfl
  | [e], h => by
    simp only [areExplicit, Bool.and_true] at h
    exact reads_sql hcollation f e h
  | e :: e' :: es, h => by
    rw [areExplicit, Bool.and_eq_true] at h
    have hcomma : Leads ", " [.other ','] := fun _ => rfl
    exact ((reads_sql hcollation f e h.1).lead hcomma rfl).read
      (reads_sqlList hcollation f (e' :: es) h.2)

end

/-! ## Compilation -/

mutual

/-- An explicit expression is compiled as it stands. -/
theorem mapM_of_explicit {τ ρ : Type} (g : σ → Trace τ) (f : σ → ρ) (k : τ → ρ) : ∀ e : Expr σ,
    e.isExplicit = true → ∃ e', (e.mapM g).result = .ok e' ∧ e'.map k = e.map f
  | .column c, _ => ⟨.column c, by rw [mapM]; rfl, rfl⟩
  | .literal v, _ => ⟨.literal v, by rw [mapM]; rfl, rfl⟩
  | .aggregate fn args d, h => by
    obtain ⟨args', hargs, hmap⟩ := mapListM_of_explicit g f k args h
    refine ⟨.aggregate fn args' d, ?_, by rw [map, map, hmap]⟩
    rw [mapM]
    exact Trace.bind_eq_ok.2 ⟨args', hargs, rfl⟩
  | .call name args, h => by
    simp only [isExplicit, Bool.and_eq_true] at h
    obtain ⟨args', hargs, hmap⟩ := mapListM_of_explicit g f k args h.2
    refine ⟨.call name args', ?_, by rw [map, map, hmap]⟩
    rw [mapM]
    exact Trace.bind_eq_ok.2 ⟨args', hargs, rfl⟩
  | .grouping e, h => by
    obtain ⟨e', he, hmap⟩ := mapM_of_explicit g f k e h
    refine ⟨.grouping e', ?_, by rw [map, map, hmap]⟩
    rw [mapM]
    exact Trace.bind_eq_ok.2 ⟨e', he, rfl⟩
  | .not e, h => by
    obtain ⟨e', he, hmap⟩ := mapM_of_explicit g f k e h
    refine ⟨.not e', ?_, by rw [map, map, hmap]⟩
    rw [mapM]
    exact Trace.bind_eq_ok.2 ⟨e', he, rfl⟩
  | .caseSensitive e, h => by
    simp only [isExplicit, Bool.and_eq_true] at h
    obtain ⟨e', he, hmap⟩ := mapM_of_explicit g f k e h.2
    refine ⟨.caseSensitive e', ?_, by rw [map, map, hmap]⟩
    rw [mapM]
    exact Trace.bind_eq_ok.2 ⟨e', he, rfl⟩
  | .binary l op r, h => by
    simp only [isExplicit, Bool.and_eq_true] at h
    obtain ⟨l', hl, hlmap⟩ := mapM_of_explicit g f k l h.1.1.2
    obtain ⟨r', hr, hrmap⟩ := mapM_of_explicit g f k r h.2
    refine ⟨.binary l' op r', ?_, by rw [map, map, hlmap, hrmap]⟩
    rw [mapM]
    exact Trace.bind_eq_ok.2 ⟨l', hl, Trace.bind_eq_ok.2 ⟨r', hr, rfl⟩⟩
  | .isNull e n, h => by
    simp only [isExplicit, Bool.and_eq_true] at h
    obtain ⟨e', he, hmap⟩ := mapM_of_explicit g f k e h.2
    refine ⟨.isNull e' n, ?_, by rw [map, map, hmap]⟩
    rw [mapM]
    exact Trace.bind_eq_ok.2 ⟨e', he, rfl⟩
  | .inList e list n, h => by
    simp only [isExplicit, Bool.and_eq_true] at h
    obtain ⟨e', he, hmap⟩ := mapM_of_explicit g f k e h.1.2
    obtain ⟨list', hlist, hlistmap⟩ := mapListM_of_explicit g f k list h.2
    refine ⟨.inList e' list' n, ?_, by rw [map, map, hmap, hlistmap]⟩
    rw [mapM]
    exact Trace.bind_eq_ok.2 ⟨e', he, Trace.bind_eq_ok.2 ⟨list', hlist, rfl⟩⟩
  | .wildcard _, h | .typed _ _, h | .alias _ _, h | .distinct _, h | .inSubquery _ _ _, h
  | .raw _, h => by cases h

theorem mapListM_of_explicit {τ ρ : Type} (g : σ → Trace τ) (f : σ → ρ) (k : τ → ρ) :
    ∀ es : List (Expr σ), areExplicit es = true →
      ∃ es', (mapListM g es).result = .ok es' ∧ mapList k es' = mapList f es
  | [], _ => ⟨[], by rw [mapListM]; rfl, rfl⟩
  | e :: es, h => by
    rw [areExplicit, Bool.and_eq_true] at h
    obtain ⟨e', he, hmap⟩ := mapM_of_explicit g f k e h.1
    obtain ⟨es', hes, hlistmap⟩ := mapListM_of_explicit g f k es h.2
    refine ⟨e' :: es', ?_, by rw [mapList, mapList, hmap, hlistmap]⟩
    rw [mapListM]
    exact Trace.bind_eq_ok.2 ⟨e', he, Trace.bind_eq_ok.2 ⟨es', hes, rfl⟩⟩

end

end Expr

/-! ## Reading the text back -/

/-- The text of an explicit expression is read back as the expression. -/
theorem Scope.expression?_querySql {σ : Type} (sc : Scope σ)
    (hcollation : isIdentifier sc.options.collation = true) {e : Expr σ}
    (he : e.isExplicit = true) : ∃ e', (sc.expr e).result = .ok e' ∧
      expression? (e'.querySql sc.options.collation) = some e := by
  obtain ⟨e', hresult, hmap⟩ := e.mapM_of_explicit sc.subquery (fun _ => "")
    (Query.sql sc.options.collation) he
  refine ⟨e', hresult, expression?_of_reads hcollation he ?_⟩
  rw [Expr.querySql, hmap]
  exact e.reads_sql hcollation _ he

/-- Operators of all strengths below parentheses, a negative number and a name with a bracket. -/
def nestedOperators : Expr Select :=
  .inList
    (.call "ISNULL" [.binary (.grouping (.binary (.qualified "s.t" "a]") .sub (.int (-5)))) .mul
      (.aggregate .count [] true), .not (.isNull (.literal (.binary [10])) true)])
    [.caseSensitive (.textConstant "x"), .binary (.named "b") .or (.named "c")] true

end Transact
