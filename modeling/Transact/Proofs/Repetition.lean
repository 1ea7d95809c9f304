import Transact.Proofs.Compile
import Transact.Proofs.Plan.Fresh

/-!
# Orders without repetitions

Two sort keys whose expressions have one text sort by the same thing, so of such keys only the first
one is kept, whatever the directions. `Scope.text?` is the text of an expression, and
`Scope.Unrepeated` says which keys remain of an order.

* `Scope.labelled_eq_ok`: every key gets the text of its expression as a label.
* `firstOfEach_sublist`, `firstOfEach_differ`, `find?_firstOfEach`: what is kept of labelled
  elements.
* `Scope.unrepeated_distinctKeys`, `Scope.distinctKeys_of_differ`: what is kept of an order, and an
  order of which everything is kept.
* `Scope.distinctKeys_repeated`, `SelectBody.compile_repeated`: a key that repeats an earlier one
  makes no difference.
-/

set_option autoImplicit false

namespace Transact

/-! ## Labelled elements -/

section

variable {α : Type}

theorem firstOfEach_sublist (seen : List String) (l : List (String × α)) :
    (firstOfEach seen l).Sublist (l.map Prod.snd) := by
  induction l generalizing seen with
  | nil => exact List.Sublist.refl _
  | cons x l ih =>
    unfold firstOfEach
    split
    · exact (ih seen).cons _
    · exact (ih _).cons_cons _

/-- An element is passed over when its label was seen before. -/
theorem firstOfEach_repeated {label : String} (a : α) {seen : List String}
    {before : List (String × α)} (h : label ∈ seen ∨ label ∈ before.map Prod.fst)
    (after : List (String × α)) :
    firstOfEach seen (before ++ (label, a) :: after) = firstOfEach seen (before ++ after) := by
  induction before generalizing seen with
  | nil =>
    have hseen : seen.contains label = true := by simpa using h
    rw [List.nil_append, List.nil_append, firstOfEach, if_pos hseen]
  | cons x before ih =>
    rw [List.cons_append, List.cons_append, firstOfEach, firstOfEach]
    by_cases hx : seen.contains x.1 = true
    · rw [if_pos hx, if_pos hx]
      refine ih ?_
      rcases h with h | h
      · exact .inl h
      · rcases List.mem_cons.1 h with rfl | h
        · exact .inl (List.contains_iff_mem.1 hx)
        · exact .inr h
    · rw [if_neg hx, if_neg hx]
      congr 1
      refine ih ?_
      rcases h with h | h
      · exact .inl (List.mem_cons_of_mem _ h)
      · rcases List.mem_cons.1 h with rfl | h
        · exact .inl List.mem_cons_self
        · exact .inr h

/-- Elements with different labels are all kept. -/
theorem firstOfEach_eq_self {seen : List String} {l : List (String × α)}
    (hseen : ∀ x ∈ l, x.1 ∉ seen) (h : l.Pairwise fun x y => x.1 ≠ y.1) :
    firstOfEach seen l = l.map Prod.snd := by
  induction l generalizing seen with
  | nil => rfl
  | cons x l ih =>
    obtain ⟨hx, hl⟩ := List.pairwise_cons.1 h
    have hnew : ¬ seen.contains x.1 = true := by simpa using hseen x List.mem_cons_self
    rw [firstOfEach, if_neg hnew, List.map_cons, ih ?_ hl]
    intro y hy hmem
    rcases List.mem_cons.1 hmem with he | hmem
    · exact hx y hy he.symm
    · exact hseen y (List.mem_cons_of_mem _ hy) hmem

theorem firstOfEach_map {β : Type} (f : α → β) (seen : List String) (l : List (String × α)) :
    firstOfEach seen (l.map fun x => (x.1, f x.2)) = (firstOfEach seen l).map f := by
  induction l generalizing seen with
  | nil => rfl
  | cons x l ih =>
    rw [List.map_cons, firstOfEach, firstOfEach]
    split
    · exact ih seen
    · rw [List.map_cons, ih]

variable {label : α → Option String}

/-- What is kept has labels that were not seen before. -/
theorem label_firstOfEach {l : List (String × α)} (hl : ∀ x ∈ l, label x.2 = some x.1)
    {seen : List String} {text : String} (htext : text ∈ seen) :
    ∀ a ∈ firstOfEach seen l, label a ≠ some text := by
  induction l generalizing seen with
  | nil =>
    intro a ha
    cases ha
  | cons x l ih =>
    obtain ⟨hx, hl⟩ := List.forall_mem_cons.1 hl
    unfold firstOfEach
    split
    · exact ih hl htext
    · rename_i hnew
      refine List.forall_mem_cons.2 ⟨?_, ih hl (List.mem_cons_of_mem _ htext)⟩
      rw [hx]
      rintro ⟨⟩
      exact hnew (List.contains_iff_mem.2 htext)

/-- **What is kept** has different labels. -/
theorem firstOfEach_differ {l : List (String × α)} (hl : ∀ x ∈ l, label x.2 = some x.1)
    (seen : List String) : (firstOfEach seen l).Pairwise fun a b => label a ≠ label b := by
  induction l generalizing seen with
  | nil => exact List.Pairwise.nil
  | cons x l ih =>
    obtain ⟨hx, hl⟩ := List.forall_mem_cons.1 hl
    unfold firstOfEach
    split
    · exact ih hl seen
    · refine List.pairwise_cons.2 ⟨fun a ha he => ?_, ih hl _⟩
      exact label_firstOfEach hl List.mem_cons_self a ha (he.symm.trans hx)

/-- **The first element of a label** is kept. -/
theorem find?_firstOfEach {l : List (String × α)} (hl : ∀ x ∈ l, label x.2 = some x.1)
    {seen : List String} {text : String} (htext : text ∉ seen) :
    (firstOfEach seen l).find? (fun a => label a == some text) =
      (l.map Prod.snd).find? fun a => label a == some text := by
  induction l generalizing seen with
  | nil => rfl
  | cons x l ih =>
    obtain ⟨hx, hl⟩ := List.forall_mem_cons.1 hl
    rw [List.map_cons, firstOfEach]
    by_cases hlabel : x.1 = text
    · have hnew : ¬ seen.contains x.1 = true := by simpa [hlabel] using htext
      have hfound : (label x.2 == some text) = true := by simp [hx, hlabel]
      rw [if_neg hnew, List.find?_cons_of_pos (p := fun a => label a == some text) hfound,
        List.find?_cons_of_pos (p := fun a => label a == some text) hfound]
    · have hother : ¬ (label x.2 == some text) = true := by simpa [hx] using hlabel
      rw [List.find?_cons_of_neg (p := fun a => label a == some text) hother]
      split
      · exact ih hl htext
      · rw [List.find?_cons_of_neg (p := fun a => label a == some text) hother]
        refine ih hl fun hmem => ?_
        rcases List.mem_cons.1 hmem with he | hmem
        · exact hlabel he.symm
        · exact htext hmem

end

/-! ## Orders -/

namespace Scope

variable {σ : Type} (sc : Scope σ)

/-- The text of an expression, unless some subquery of it fails. -/
def text? (e : Expr σ) : Option String :=
  (sc.expr e).result.toOption.map (·.querySql sc.options.collation)

/-- **An order without repetitions**: the keys in their sequence, of which no two have one text, and
of those that had one text the first with its direction. -/
structure Unrepeated (keys kept : List (SortKey σ)) : Prop where
  sublist : kept.Sublist keys
  differ : kept.Pairwise fun k k' => sc.text? k.expr ≠ sc.text? k'.expr
  first : ∀ text, kept.find? (fun k => sc.text? k.expr == some text) =
    keys.find? fun k => sc.text? k.expr == some text

variable {sc} {keys kept : List (SortKey σ)}

theorem text?_eq_some {e : Expr σ} {text : String} :
    sc.text? e = some text ↔
      ∃ e', (sc.expr e).result = .ok e' ∧ e'.querySql sc.options.collation = text := by
  unfold text?
  cases (sc.expr e).result <;> simp [Except.toOption]

/-- **Every key** is labelled by the text of its expression. -/
theorem labelled_eq_ok : ∀ {keys : List (SortKey σ)} {l : List (String × SortKey σ)},
    (sc.labelled keys).result = .ok l ↔
      l.map Prod.snd = keys ∧ ∀ x ∈ l, sc.text? x.2.expr = some x.1
  | [], l => by
    rw [labelled, Trace.pure_result, Except.ok.injEq, List.map_eq_nil_iff]
    constructor
    · rintro rfl
      exact ⟨rfl, fun x hx => by cases hx⟩
    · rintro ⟨rfl, -⟩
      rfl
  | k :: keys, l => by
    simp only [labelled, Trace.bind_eq_ok, Trace.pure_result, Except.ok.injEq]
    constructor
    · rintro ⟨e, he, rest, hrest, rfl⟩
      obtain ⟨rfl, hl⟩ := labelled_eq_ok.1 hrest
      exact ⟨rfl, List.forall_mem_cons.2 ⟨text?_eq_some.2 ⟨e, he, rfl⟩, hl⟩⟩
    · rintro ⟨hkeys, hl⟩
      obtain ⟨x, rest, rfl, rfl, hrest⟩ := List.map_eq_cons_iff.1 hkeys
      obtain ⟨hx, hl⟩ := List.forall_mem_cons.1 hl
      obtain ⟨e, he, hlabel⟩ := text?_eq_some.1 hx
      exact ⟨e, he, rest, labelled_eq_ok.2 ⟨hrest, hl⟩, by rw [hlabel]⟩

theorem distinctKeys_eq_ok :
    (sc.distinctKeys keys).result = .ok kept ↔
      ∃ l, (l.map Prod.snd = keys ∧ ∀ x ∈ l, sc.text? x.2.expr = some x.1) ∧
        firstOfEach [] l = kept := by
  simp only [distinctKeys, Trace.bind_eq_ok, labelled_eq_ok, Trace.pure_result, Except.ok.injEq]

/-- An order whose expressions all have texts can be labelled. -/
theorem exists_labels (h : ∀ k ∈ keys, (sc.text? k.expr).isSome) :
    ∃ l : List (String × SortKey σ),
      l.map Prod.snd = keys ∧ ∀ x ∈ l, sc.text? x.2.expr = some x.1 := by
  induction keys with
  | nil => exact ⟨[], rfl, fun x hx => by cases hx⟩
  | cons k keys ih =>
    obtain ⟨hk, hkeys⟩ := List.forall_mem_cons.1 h
    obtain ⟨text, htext⟩ := Option.isSome_iff_exists.1 hk
    obtain ⟨l, rfl, hl⟩ := ih hkeys
    exact ⟨(text, k) :: l, rfl, List.forall_mem_cons.2 ⟨htext, hl⟩⟩

theorem exists_distinctKeys (h : ∀ k ∈ keys, (sc.text? k.expr).isSome) :
    ∃ kept, (sc.distinctKeys keys).result = .ok kept := by
  obtain ⟨l, hl⟩ := exists_labels h
  exact ⟨_, distinctKeys_eq_ok.2 ⟨l, hl, rfl⟩⟩

/-- **What is kept of an order** has no repetitions. -/
theorem unrepeated_distinctKeys (h : (sc.distinctKeys keys).result = .ok kept) :
    sc.Unrepeated keys kept := by
  obtain ⟨l, ⟨rfl, hl⟩, rfl⟩ := distinctKeys_eq_ok.1 h
  have hlabel : ∀ x ∈ l, (fun k : SortKey σ => sc.text? k.expr) x.2 = some x.1 := hl
  exact ⟨firstOfEach_sublist [] l, firstOfEach_differ hlabel [],
    fun text => find?_firstOfEach hlabel List.not_mem_nil⟩

/-- **An order without repetitions** stays as it is. -/
theorem distinctKeys_of_differ (h : ∀ k ∈ keys, (sc.text? k.expr).isSome)
    (hdiffer : keys.Pairwise fun k k' => sc.text? k.expr ≠ sc.text? k'.expr) :
    (sc.distinctKeys keys).result = .ok keys := by
  obtain ⟨l, rfl, hl⟩ := exists_labels h
  refine distinctKeys_eq_ok.2 ⟨l, ⟨rfl, hl⟩, firstOfEach_eq_self (fun _ _ => List.not_mem_nil) ?_⟩
  rw [List.pairwise_map] at hdiffer
  refine hdiffer.imp_of_mem fun {x y} hx hy hne he => hne ?_
  rw [hl x hx, hl y hy, he]

/-! ## A key that repeats an earlier one -/

theorem labelled_append (sc : Scope σ) : ∀ keys keys' : List (SortKey σ),
    sc.labelled (keys ++ keys') = do
      let l ← sc.labelled keys
      let l' ← sc.labelled keys'
      pure (l ++ l')
  | [], keys' => by simp [labelled]
  | k :: keys, keys' => by simp [labelled, labelled_append sc keys keys']

/-- **A key that repeats the expression of an earlier one** makes no difference to an order, whatever
its direction. -/
theorem distinctKeys_repeated (sc : Scope σ) {front : List (SortKey σ)} {k : SortKey σ}
    (hk : k ∈ front) (d : Direction) (after : List (SortKey σ)) :
    (sc.distinctKeys (front ++ ⟨k.expr, d⟩ :: after)).result =
      (sc.distinctKeys (front ++ after)).result := by
  rw [distinctKeys, distinctKeys, labelled_append, labelled_append, bind_assoc, bind_assoc]
  cases hfront : (sc.labelled front).result with
  | error e => rw [Trace.bind_error hfront, Trace.bind_error hfront]
  | ok l =>
    rw [Trace.bind_ok hfront, Trace.bind_ok hfront]
    -- the earlier key has a label, and the later one has the same
    obtain ⟨rfl, htexts⟩ := labelled_eq_ok.1 hfront
    obtain ⟨x, hx, rfl⟩ := List.mem_map.1 hk
    obtain ⟨e, he, hlabel⟩ := text?_eq_some.1 (htexts x hx)
    have hmem : e.querySql sc.options.collation ∈ l.map Prod.fst := by
      rw [hlabel]
      exact List.mem_map_of_mem hx
    simp only [labelled, bind_assoc, pure_bind]
    rw [Trace.bind_ok he]
    cases hafter : (sc.labelled after).result with
    | error e => rw [Trace.bind_error hafter, Trace.bind_error hafter]
    | ok l' =>
      rw [Trace.bind_ok hafter, Trace.bind_ok hafter]
      exact congrArg Except.ok (firstOfEach_repeated _ (.inr hmem) l')

end Scope

/-! ## Levels -/

/-- What a sequence comes to depends on its first part only through the result. -/
theorem Trace.bind_result_congr {α β : Type} {t t' : Trace α} (h : t.result = t'.result)
    (f : α → Trace β) : (t >>= f).result = (t' >>= f).result := by
  cases ht : t'.result with
  | error e => rw [bind_error (h.trans ht), bind_error ht]
  | ok a => rw [bind_ok (h.trans ht), bind_ok ht]

namespace SelectBody

variable {σ : Type} (s : SelectBody σ) {front : List (SortKey σ)} {k : SortKey σ}

/-- A repeated key uses no other names. -/
theorem mem_names_repeated (hk : k ∈ front) (d : Direction) (after : List (SortKey σ))
    (n : String) :
    n ∈ (s.withOrders (front ++ ⟨k.expr, d⟩ :: after)).names.map Text.lower ↔
      n ∈ (s.withOrders (front ++ after)).names.map Text.lower := by
  have hfront : n ∈ k.expr.names.map Text.lower →
      n ∈ (front.flatMap (·.expr.names)).map Text.lower := by
    intro hn
    obtain ⟨name, hname, rfl⟩ := List.mem_map.1 hn
    exact List.mem_map_of_mem (List.mem_flatMap.2 ⟨k, hk, hname⟩)
  simp only [names, withOrders, List.map_append, List.mem_append, List.flatMap_append,
    List.flatMap_cons]
  tauto

/-- **A repeated key** makes no difference to what a level is compiled to. -/
theorem compile_repeated [BEq σ] (options : Options) (subquery : σ → Trace Query) (hk : k ∈ front)
    (d : Direction) (after : List (SortKey σ)) :
    ((s.withOrders (front ++ ⟨k.expr, d⟩ :: after)).compile options subquery).result =
      ((s.withOrders (front ++ after)).compile options subquery).result := by
  have hscope : (s.withOrders (front ++ ⟨k.expr, d⟩ :: after)).scope options subquery =
      (s.withOrders (front ++ after)).scope options subquery := by
    rw [scope, scope, SyntheticNames.avoiding_congr (s.mem_names_repeated hk d after)]
  rw [compile_result, compile_result, hscope]
  exact Trace.bind_result_congr (Scope.distinctKeys_repeated _ hk d after) _

end SelectBody

/-! ## Selects -/

/-- **Orders without repetitions.** An order whose expressions all have texts is freed of
repetitions, and freeing it again changes nothing. A select is compiled to the same text, or fails
alike, with or without a key that has the expression of an earlier one. -/
theorem Select.orders_unrepeated :
    (∀ {σ : Type} (sc : Scope σ) (keys : List (SortKey σ)),
      (∀ k ∈ keys, (sc.text? k.expr).isSome) →
        ∃ kept, (sc.distinctKeys keys).result = .ok kept ∧ sc.Unrepeated keys kept ∧
          (sc.distinctKeys kept).result = .ok kept) ∧
    ∀ (options : Options) (s : SelectBody Select) (front after : List (SortKey Select))
        (k : SortKey Select) (d : Direction), k ∈ front →
      Statement.sql options (.select (.of (s.withOrders (front ++ ⟨k.expr, d⟩ :: after)))) =
        Statement.sql options (.select (.of (s.withOrders (front ++ after)))) := by
  constructor
  · intro σ sc keys htexts
    obtain ⟨kept, hkept⟩ := Scope.exists_distinctKeys htexts
    have hunrepeated := Scope.unrepeated_distinctKeys hkept
    refine ⟨kept, hkept, hunrepeated, Scope.distinctKeys_of_differ (fun k hk => ?_) ?_⟩
    · exact htexts k (hunrepeated.sublist.subset hk)
    · exact hunrepeated.differ
  · intro options s front after k d hk
    have hlevel : ∀ keys, (Select.of (s.withOrders keys)).level options =
        (s.map (compiled options)).withOrders (keys.map (·.map (compiled options))) := fun _ => rfl
    have hk' := List.mem_map_of_mem (f := SortKey.map (compiled options)) hk
    rw [sql_result, sql_result, compile_eq, compile_eq, hlevel, hlevel, List.map_append,
      List.map_append, List.map_cons]
    exact congrArg (Except.map _) (SelectBody.compile_repeated _ options _ hk' d _)

/-- An order that comes back to its first column. -/
def returningOrder : List (SortKey Select) :=
  [(Expr.named "a").asc, (Expr.named "b").desc, (Expr.named "a").desc]

/-- A page of distinct values of the first column. -/
def distinctPageBody : SelectBody Select where
  cores :=
    [{ projections := [.distinct (.named "a")], source := some (.table { name := "t" }) }]
  offset := some (.int 1)

theorem Select.orders_unrepeated_returning :
    let sc : Scope Select := ⟨{}, .preferred, Select.compile {}⟩
    (∀ k ∈ returningOrder, (sc.text? k.expr).isSome) ∧
      (∃ kept, (sc.distinctKeys returningOrder).result = .ok kept ∧
        sc.Unrepeated returningOrder kept ∧ (sc.distinctKeys kept).result = .ok kept) ∧
      (Expr.named "a").asc ∈ returningOrder.take 2 ∧
      Statement.sql {} (.select (.of (distinctPageBody.withOrders
          (returningOrder.take 2 ++ ⟨.named "a", .desc⟩ :: [(Expr.named "c").asc])))) =
        Statement.sql {} (.select (.of (distinctPageBody.withOrders
          (returningOrder.take 2 ++ [(Expr.named "c").asc])))) := by
  intro sc
  have htexts : ∀ k ∈ returningOrder, (sc.text? k.expr).isSome := by
    intro k hk
    simp only [returningOrder, List.mem_cons, List.not_mem_nil, or_false] at hk
    rcases hk with rfl | rfl | rfl <;> rfl
  have hmem : (Expr.named "a").asc ∈ returningOrder.take 2 := List.mem_cons_self
  obtain ⟨hkept, hsql⟩ := Select.orders_unrepeated
  exact ⟨htexts, hkept sc returningOrder htexts, hmem,
    hsql {} distinctPageBody (returningOrder.take 2) [(Expr.named "c").asc] (Expr.named "a").asc .desc
      hmem⟩

end Transact
