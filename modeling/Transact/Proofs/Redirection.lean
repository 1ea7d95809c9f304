import Transact.Proofs.Plan.Hygiene

/-!
# Redirected references

A query around another one refers to its columns by another qualifier, so references to one table
are redirected to the other. `Expr.qualifiers` reads the qualifiers of an expression from left to
right, and `Expr.unqualified` is the expression without them.

* `Expr.refersTo_iff`: a table is among the qualifiers when a column or a wildcard of it occurs.
* `Expr.eq_of_unqualified`: an expression is known by these two.
* `Expr.qualifiers_rename`, `Expr.unqualified_rename`: what a change of qualifiers does to them, of
  which a redirection is one (`Renaming.requalifies_requalify`).
* `Expr.requalify_exact`: so it redirects all references to the table and changes nothing else, and
  it can be undone when the other qualifier was not in use.
-/

set_option autoImplicit false

namespace Transact

/-! ## Changes of qualifiers -/

namespace Renaming

/-- The renaming changes qualifiers by `f`, and no other name. -/
structure Requalifies (r : Renaming) (f : Option String → Option String) : Prop where
  column : ∀ c, r.column c = ⟨f c.table, c.name⟩
  table : ∀ table, Option.map r.table table = f table
  function : ∀ name, r.function name = name
  raw : ∀ s, r.raw s = s

variable {source target : String}

/-- The qualifier `source` becomes `target`, and every other one stays. -/
def redirect (source target : String) (q : Option String) : Option String :=
  if q = some source then some target else q

theorem redirect_ne_source (hne : source ≠ target) (q : Option String) :
    redirect source target q ≠ some source := by
  by_cases h : q = some source
  · simpa [redirect, h] using hne.symm
  · simp [redirect, h]

theorem redirect_redirect_eq_self_iff (hne : source ≠ target) (q : Option String) :
    redirect target source (redirect source target q) = q ↔ q ≠ some target := by
  by_cases hsource : q = some source
  · simp [redirect, hsource, hne]
  · by_cases htarget : q = some target
    · simp [redirect, htarget, hne.symm, hne]
    · simp [redirect, hsource, htarget]

theorem requalifies_requalify :
    (requalify source target).Requalifies (redirect source target) where
  column c := by by_cases h : c.table = some source <;> simp [requalify, redirect, h]
  table
    | none => rfl
    | some table => by by_cases h : table = source <;> simp [requalify, redirect, h]
  function _ := rfl
  raw _ := rfl

end Renaming

namespace Expr

open Renaming (redirect)

variable {σ : Type}

/-! ## Qualifiers -/

mutual

/-- The qualifiers of the columns and wildcards in an expression, those in its subqueries
excepted. -/
def qualifiers : Expr σ → List (Option String)
  | .column c => [c.table]
  | .wildcard table => [table]
  | .literal _ => []
  | .typed _ _ => []
  | .aggregate _ args _ => qualifiersList args
  | .call _ args => qualifiersList args
  | .alias e _ => qualifiers e
  | .distinct e => qualifiers e
  | .binary l _ r => qualifiers l ++ qualifiers r
  | .not e => qualifiers e
  | .isNull e _ => qualifiers e
  | .inList e list _ => qualifiers e ++ qualifiersList list
  | .inSubquery e _ _ => qualifiers e
  | .grouping e => qualifiers e
  | .caseSensitive e => qualifiers e
  | .raw _ => []

/-- The qualifiers in the expressions. -/
def qualifiersList : List (Expr σ) → List (Option String)
  | [] => []
  | e :: es => qualifiers e ++ qualifiersList es

end

/-- A column or a wildcard in the expression is qualified by the table. -/
def RefersTo (e : Expr σ) (table : String) : Prop :=
  (∃ name, Occurs (.qualified table name) e) ∨ Occurs (.allOf table) e

theorem mem_qualifiersList {q : Option String} {es : List (Expr σ)} :
    q ∈ qualifiersList es ↔ ∃ e ∈ es, q ∈ e.qualifiers := by
  induction es with
  | nil => simp [qualifiersList]
  | cons e es ih => simp [qualifiersList, ih]

theorem mem_qualifiers_of_operand {q : Option String} {o : Expr σ} (hq : q ∈ o.qualifiers) :
    ∀ {e : Expr σ}, o ∈ e.operands → q ∈ e.qualifiers
  | .column _, h | .wildcard _, h | .literal _, h | .typed _ _, h | .raw _, h => by cases h
  | .aggregate _ _ _, h | .call _ _, h => mem_qualifiersList.2 ⟨o, h, hq⟩
  | .alias _ _, h | .distinct _, h | .not _, h | .isNull _ _, h | .inSubquery _ _ _, h
  | .grouping _, h | .caseSensitive _, h => by
    rw [qualifiers, ← List.mem_singleton.1 h]
    exact hq
  | .binary _ _ _, h => by
    rw [qualifiers, List.mem_append]
    rcases List.mem_cons.1 h with rfl | h
    · exact .inl hq
    · exact .inr (List.mem_singleton.1 h ▸ hq)
  | .inList _ _ _, h => by
    rw [qualifiers, List.mem_append]
    rcases List.mem_cons.1 h with rfl | h
    · exact .inl hq
    · exact .inr (mem_qualifiersList.2 ⟨o, h, hq⟩)

theorem mem_qualifiers_of_occurs {q : Option String} {x e : Expr σ} (h : Occurs x e)
    (hq : q ∈ x.qualifiers) : q ∈ e.qualifiers := by
  induction h with
  | self => exact hq
  | operand hmem _ ih => exact mem_qualifiers_of_operand ih hmem

theorem RefersTo.of_operand {table : String} {o e : Expr σ} (hmem : o ∈ e.operands)
    (h : o.RefersTo table) : e.RefersTo table := by
  rcases h with ⟨name, h⟩ | h
  · exact .inl ⟨name, .operand hmem h⟩
  · exact .inr (.operand hmem h)

mutual

theorem refersTo_of_mem {table : String} : ∀ {e : Expr σ}, some table ∈ e.qualifiers →
    e.RefersTo table
  | .column ⟨_, name⟩, h => by
    obtain rfl := List.mem_singleton.1 h
    exact .inl ⟨name, .self⟩
  | .wildcard _, h => by
    obtain rfl := List.mem_singleton.1 h
    exact .inr .self
  | .literal _, h | .typed _ _, h | .raw _, h => by cases h
  | .aggregate _ args _, h | .call _ args, h => by
    obtain ⟨e, he, hrefers⟩ : ∃ e ∈ args, e.RefersTo table := exists_refersTo_of_mem h
    exact hrefers.of_operand he
  | .alias e _, h | .distinct e, h | .not e, h | .isNull e _, h | .inSubquery e _ _, h
  | .grouping e, h | .caseSensitive e, h =>
    (refersTo_of_mem (e := e) h).of_operand List.mem_cons_self
  | .binary l _ r, h => by
    rw [qualifiers, List.mem_append] at h
    rcases h with h | h
    · exact (refersTo_of_mem h).of_operand List.mem_cons_self
    · exact (refersTo_of_mem h).of_operand (List.mem_cons_of_mem _ List.mem_cons_self)
  | .inList e list _, h => by
    rw [qualifiers, List.mem_append] at h
    rcases h with h | h
    · exact (refersTo_of_mem h).of_operand List.mem_cons_self
    · obtain ⟨x, hx, hrefers⟩ := exists_refersTo_of_mem h
      exact hrefers.of_operand (List.mem_cons_of_mem _ hx)

theorem exists_refersTo_of_mem {table : String} : ∀ {es : List (Expr σ)},
    some table ∈ qualifiersList es → ∃ e ∈ es, e.RefersTo table
  | [], h => by cases h
  | e :: es, h => by
    rw [qualifiersList, List.mem_append] at h
    rcases h with h | h
    · exact ⟨e, List.mem_cons_self, refersTo_of_mem h⟩
    · obtain ⟨x, hx, hrefers⟩ := exists_refersTo_of_mem h
      exact ⟨x, List.mem_cons_of_mem _ hx, hrefers⟩

end

/-- **A table is among the qualifiers** when a column or a wildcard of it occurs. -/
theorem refersTo_iff {e : Expr σ} {table : String} :
    e.RefersTo table ↔ some table ∈ e.qualifiers := by
  refine ⟨?_, refersTo_of_mem⟩
  rintro (⟨name, h⟩ | h)
  · exact mem_qualifiers_of_occurs h (List.mem_singleton_self _)
  · exact mem_qualifiers_of_occurs h (List.mem_singleton_self _)

instance (e : Expr σ) (table : String) : Decidable (e.RefersTo table) :=
  decidable_of_iff _ refersTo_iff.symm

/-! ## Expressions without qualifiers -/

mutual

/-- The expression without the qualifiers of its columns and wildcards. Its subqueries keep
theirs. -/
def unqualified : Expr σ → Expr σ
  | .column c => .column ⟨none, c.name⟩
  | .wildcard _ => .wildcard none
  | .literal v => .literal v
  | .typed v ty => .typed v ty
  | .aggregate fn args d => .aggregate fn (unqualifiedList args) d
  | .call name args => .call name (unqualifiedList args)
  | .alias e name => .alias (unqualified e) name
  | .distinct e => .distinct (unqualified e)
  | .binary l op r => .binary (unqualified l) op (unqualified r)
  | .not e => .not (unqualified e)
  | .isNull e n => .isNull (unqualified e) n
  | .inList e list n => .inList (unqualified e) (unqualifiedList list) n
  | .inSubquery e q n => .inSubquery (unqualified e) q n
  | .grouping e => .grouping (unqualified e)
  | .caseSensitive e => .caseSensitive (unqualified e)
  | .raw s => .raw s

/-- The expressions without their qualifiers. -/
def unqualifiedList : List (Expr σ) → List (Expr σ)
  | [] => []
  | e :: es => unqualified e :: unqualifiedList es

end

mutual

theorem length_qualifiers_unqualified : ∀ e : Expr σ,
    e.unqualified.qualifiers.length = e.qualifiers.length
  | .column _ | .wildcard _ | .literal _ | .typed _ _ | .raw _ => rfl
  | .aggregate _ args _ | .call _ args => length_qualifiersList_unqualifiedList args
  | .alias e _ | .distinct e | .not e | .isNull e _ | .inSubquery e _ _ | .grouping e
  | .caseSensitive e => length_qualifiers_unqualified e
  | .binary l _ r => by
    simp only [unqualified, qualifiers, List.length_append, length_qualifiers_unqualified l,
      length_qualifiers_unqualified r]
  | .inList e list _ => by
    simp only [unqualified, qualifiers, List.length_append, length_qualifiers_unqualified e,
      length_qualifiersList_unqualifiedList list]

theorem length_qualifiersList_unqualifiedList : ∀ es : List (Expr σ),
    (qualifiersList (unqualifiedList es)).length = (qualifiersList es).length
  | [] => rfl
  | e :: es => by
    simp only [unqualifiedList, qualifiersList, List.length_append,
      length_qualifiers_unqualified e, length_qualifiersList_unqualifiedList es]

end

theorem length_qualifiers_eq {e e' : Expr σ} (h : e.unqualified = e'.unqualified) :
    e.qualifiers.length = e'.qualifiers.length := by
  rw [← length_qualifiers_unqualified, h, length_qualifiers_unqualified]

mutual

/-- **An expression is known** by its form without qualifiers and by its qualifiers. -/
theorem eq_of_unqualified : ∀ {e e' : Expr σ}, e.unqualified = e'.unqualified →
    e.qualifiers = e'.qualifiers → e = e'
  | .column ⟨table, name⟩, e', hform, hq => by
    cases e' <;> cases hform
    obtain rfl := List.singleton_inj.1 hq
    rfl
  | .wildcard _, e', hform, hq => by
    cases e' <;> cases hform
    rw [List.singleton_inj.1 hq]
  | .literal _, e', hform, _ | .typed _ _, e', hform, _ | .raw _, e', hform, _ => by
    cases e' <;> cases hform
    rfl
  | .aggregate _ args _, e', hform, hq => by
    cases e' <;> simp only [unqualified, reduceCtorEq, aggregate.injEq] at hform
    obtain ⟨rfl, hargs, rfl⟩ := hform
    rw [eq_of_unqualifiedList hargs hq]
  | .call _ args, e', hform, hq => by
    cases e' <;> simp only [unqualified, reduceCtorEq, call.injEq] at hform
    obtain ⟨rfl, hargs⟩ := hform
    rw [eq_of_unqualifiedList hargs hq]
  | .distinct e, e', hform, hq | .not e, e', hform, hq | .grouping e, e', hform, hq
  | .caseSensitive e, e', hform, hq => by
    cases e' <;> simp only [unqualified, reduceCtorEq, distinct.injEq, not.injEq, grouping.injEq,
      caseSensitive.injEq] at hform
    rw [eq_of_unqualified hform hq]
  | .alias e _, e', hform, hq | .isNull e _, e', hform, hq => by
    cases e' <;> simp only [unqualified, reduceCtorEq, alias.injEq, isNull.injEq] at hform
    obtain ⟨he, rfl⟩ := hform
    rw [eq_of_unqualified he hq]
  | .inSubquery e _ _, e', hform, hq => by
    cases e' <;> simp only [unqualified, reduceCtorEq, inSubquery.injEq] at hform
    obtain ⟨he, rfl, rfl⟩ := hform
    rw [eq_of_unqualified he hq]
  | .binary l _ r, e', hform, hq => by
    cases e' <;> simp only [unqualified, reduceCtorEq, binary.injEq] at hform
    obtain ⟨hl, rfl, hr⟩ := hform
    -- the form of the left operand tells how many of the qualifiers are its own
    obtain ⟨hql, hqr⟩ := List.append_inj hq (length_qualifiers_eq hl)
    rw [eq_of_unqualified hl hql, eq_of_unqualified hr hqr]
  | .inList e list _, e', hform, hq => by
    cases e' <;> simp only [unqualified, reduceCtorEq, inList.injEq] at hform
    obtain ⟨he, hlist, rfl⟩ := hform
    obtain ⟨hqe, hqlist⟩ := List.append_inj hq (length_qualifiers_eq he)
    rw [eq_of_unqualified he hqe, eq_of_unqualifiedList hlist hqlist]

theorem eq_of_unqualifiedList : ∀ {es es' : List (Expr σ)},
    unqualifiedList es = unqualifiedList es' → qualifiersList es = qualifiersList es' → es = es'
  | [], es', hform, _ => by
    cases es' with
    | nil => rfl
    | cons _ _ => cases hform
  | e :: es, es', hform, hq => by
    cases es' with
    | nil => cases hform
    | cons e' es' =>
      obtain ⟨hhead, htail⟩ := List.cons.inj hform
      obtain ⟨hqhead, hqtail⟩ := List.append_inj hq (length_qualifiers_eq hhead)
      rw [eq_of_unqualified hhead hqhead, eq_of_unqualifiedList htail hqtail]

end

/-! ## Changed qualifiers -/

section

variable {r : Renaming} {f : Option String → Option String}

mutual

theorem qualifiers_rename (h : r.Requalifies f) : ∀ e : Expr σ,
    (e.rename r).qualifiers = e.qualifiers.map f
  | .column c => by rw [rename, qualifiers, qualifiers, h.column, List.map_singleton]
  | .wildcard table => by rw [rename, qualifiers, qualifiers, h.table, List.map_singleton]
  | .literal _ | .typed _ _ | .raw _ => rfl
  | .aggregate _ args _ | .call _ args => by
    rw [rename, qualifiers, qualifiers, qualifiersList_rename h args]
  | .alias e _ | .distinct e | .not e | .isNull e _ | .inSubquery e _ _ | .grouping e
  | .caseSensitive e => by rw [rename, qualifiers, qualifiers, qualifiers_rename h e]
  | .binary left _ right => by
    rw [rename, qualifiers, qualifiers, qualifiers_rename h left, qualifiers_rename h right,
      List.map_append]
  | .inList e list _ => by
    rw [rename, qualifiers, qualifiers, qualifiers_rename h e, qualifiersList_rename h list,
      List.map_append]

theorem qualifiersList_rename (h : r.Requalifies f) : ∀ es : List (Expr σ),
    qualifiersList (renameList r es) = (qualifiersList es).map f
  | [] => rfl
  | e :: es => by
    rw [renameList, qualifiersList, qualifiersList, qualifiers_rename h e,
      qualifiersList_rename h es, List.map_append]

end

mutual

theorem unqualified_rename (h : r.Requalifies f) : ∀ e : Expr σ,
    (e.rename r).unqualified = e.unqualified
  | .column c => by rw [rename, h.column, unqualified, unqualified]
  | .wildcard _ | .literal _ | .typed _ _ => rfl
  | .raw s => by rw [rename, h.raw]
  | .aggregate _ args _ => by
    rw [rename, unqualified, unqualified, unqualifiedList_rename h args]
  | .call _ args => by
    rw [rename, h.function, unqualified, unqualified, unqualifiedList_rename h args]
  | .alias e _ | .distinct e | .not e | .isNull e _ | .inSubquery e _ _ | .grouping e
  | .caseSensitive e => by rw [rename, unqualified, unqualified, unqualified_rename h e]
  | .binary left _ right => by
    rw [rename, unqualified, unqualified, unqualified_rename h left, unqualified_rename h right]
  | .inList e list _ => by
    rw [rename, unqualified, unqualified, unqualified_rename h e, unqualifiedList_rename h list]

theorem unqualifiedList_rename (h : r.Requalifies f) : ∀ es : List (Expr σ),
    unqualifiedList (renameList r es) = unqualifiedList es
  | [] => rfl
  | e :: es => by
    rw [renameList, unqualifiedList, unqualifiedList, unqualified_rename h e,
      unqualifiedList_rename h es]

end

end

/-! ## Redirection -/

section

variable {source target : String}

theorem qualifiers_requalify (e : Expr σ) :
    (e.requalify source target).qualifiers = e.qualifiers.map (redirect source target) :=
  qualifiers_rename Renaming.requalifies_requalify e

theorem unqualified_requalify (e : Expr σ) :
    (e.requalify source target).unqualified = e.unqualified :=
  unqualified_rename Renaming.requalifies_requalify e

/-- A redirection is told by the qualifiers that it leaves. -/
theorem eq_requalify_iff {e e' : Expr σ} : e' = e.requalify source target ↔
    e'.unqualified = e.unqualified ∧ e'.qualifiers = e.qualifiers.map (redirect source target) := by
  constructor
  · rintro rfl
    exact ⟨unqualified_requalify e, qualifiers_requalify e⟩
  · rintro ⟨hform, hq⟩
    refine eq_of_unqualified ?_ ?_
    · rw [hform, unqualified_requalify]
    · rw [hq, qualifiers_requalify]

theorem requalify_requalify_eq_self_iff (hne : source ≠ target) (e : Expr σ) :
    (e.requalify source target).requalify target source = e ↔ some target ∉ e.qualifiers := by
  rw [eq_comm, eq_requalify_iff, unqualified_requalify, qualifiers_requalify, List.map_map,
    and_iff_right rfl]
  nth_rewrite 1 [← List.map_id e.qualifiers]
  rw [List.map_inj_left]
  constructor
  · intro hback hmem
    exact (Renaming.redirect_redirect_eq_self_iff hne _).1 (hback _ hmem).symm rfl
  · intro htarget q hq
    exact ((Renaming.redirect_redirect_eq_self_iff hne q).2 fun h => htarget (h ▸ hq)).symm

/-- **References to the table are redirected**, and nothing else is changed: no column or wildcard
is qualified by `source` any more, the result is the one expression that differs in these
qualifiers only, and the way back leads to the expression itself exactly when `target` was not in
use. -/
theorem requalify_exact (hne : source ≠ target) (e : Expr σ) :
    ¬(e.requalify source target).RefersTo source ∧
    (∀ e' : Expr σ, e' = e.requalify source target ↔ e'.unqualified = e.unqualified ∧
      e'.qualifiers = e.qualifiers.map (redirect source target)) ∧
    ((e.requalify source target).requalify target source = e ↔ ¬e.RefersTo target) := by
  refine ⟨?_, fun e' => eq_requalify_iff, ?_⟩
  · rw [refersTo_iff, qualifiers_requalify, List.mem_map]
    rintro ⟨q, -, hq⟩
    exact Renaming.redirect_ne_source hne q hq
  · rw [refersTo_iff]
    exact requalify_requalify_eq_self_iff hne e

end

/-- A condition on people and pets, with a subquery that has people of its own. -/
def petOwners : Expr Select :=
  .both (.equals (.qualified "people" "name") (.qualified "pets" "owner"))
    (.inSubquery (.allOf "people")
      (.of
        { cores :=
            [{ projections := [.qualified "people" "id"]
               source := some (.table { name := "people" }) }] })
      false)

theorem requalify_exact_petOwners :
    "people" ≠ "__rnt" ∧ petOwners.RefersTo "people" ∧ ¬petOwners.RefersTo "__rnt" ∧
      ¬(petOwners.requalify "people" "__rnt").RefersTo "people" ∧
      (petOwners.requalify "people" "__rnt").qualifiers =
        [some "__rnt", some "pets", some "__rnt"] ∧
      (petOwners.requalify "people" "__rnt").requalify "__rnt" "people" = petOwners := by
  have hne : "people" ≠ "__rnt" := by decide
  have htarget : ¬petOwners.RefersTo "__rnt" := by decide +kernel
  obtain ⟨hsource, -, hback⟩ := requalify_exact hne petOwners
  refine ⟨hne, ?_, htarget, hsource, ?_, hback.2 htarget⟩
  · decide +kernel
  · decide +kernel

end Expr

end Transact
