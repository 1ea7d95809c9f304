import Transact.Proofs.CompiledSource
import Transact.Proofs.Subquery

/-!
# Equality of trees

Expressions and selects are compared part by part, and doubles by their value, so that trees may be
equal without being the same. Main statements:

* `Select.same_self`, `Expr.beq_self`: every tree equals itself.
* `Select.same_euclid`, `Expr.beq_euclid`: trees that equal one tree equal each other, so that
  equality is an equivalence.
* `Expr.sameWith_normalized`: equal expressions stay equal without their marks and aliases and in
  lower case.
-/

set_option autoImplicit false

namespace Transact

/-! ## Every tree equals itself -/

theorem Number.Binary64.sameValue_self (x : Number.Binary64) : x.sameValue x = true := by
  simp [sameValue]

theorem Literal.same_self (v : Literal) : v.same v = true := by
  cases v with
  | float x => exact x.sameValue_self
  | _ => exact beq_self_eq_true _

section

variable {σ τ : Type} {eq : τ → σ → Bool} {f : σ → τ}

namespace Expr

mutual

/-- An expression equals itself with its subqueries replaced by what equals them. -/
theorem sameWith_map_self : ∀ e : Expr σ, (∀ q ∈ e.subqueries, eq (f q) q = true) →
    sameWith eq (e.map f) e = true
  | .column _, _ | .wildcard _, _ | .raw _, _ => by simp [map, sameWith]
  | .literal _, _ | .typed _ _, _ => by simp [map, sameWith, Literal.same_self]
  | .aggregate _ args _, h | .call _ args, h => by
    simp [map, sameWith, sameListWith_mapList_self args h]
  | .alias e _, h | .distinct e, h | .not e, h | .isNull e _, h | .grouping e, h
  | .caseSensitive e, h => by simp [map, sameWith, sameWith_map_self e h]
  | .binary l _ r, h => by
    simp [map, sameWith, sameWith_map_self l fun q hq => h q (List.mem_append_left _ hq),
      sameWith_map_self r fun q hq => h q (List.mem_append_right _ hq)]
  | .inList e list _, h => by
    simp [map, sameWith, sameWith_map_self e fun q hq => h q (List.mem_append_left _ hq),
      sameListWith_mapList_self list fun q hq => h q (List.mem_append_right _ hq)]
  | .inSubquery e q _, h => by
    simp [map, sameWith, sameWith_map_self e fun q hq => h q (List.mem_append_left _ hq),
      h q (List.mem_append_right _ (List.mem_singleton_self q))]

theorem sameListWith_mapList_self : ∀ es : List (Expr σ),
    (∀ q ∈ subqueriesList es, eq (f q) q = true) → sameListWith eq (mapList f es) es = true
  | [], _ => rfl
  | e :: es, h => by
    simp [mapList, sameListWith, sameWith_map_self e fun q hq => h q (List.mem_append_left _ hq),
      sameListWith_mapList_self es fun q hq => h q (List.mem_append_right _ hq)]

end

theorem sameListWith_map_self {es : List (Expr σ)}
    (h : ∀ e ∈ es, ∀ q ∈ e.subqueries, eq (f q) q = true) :
    sameListWith eq (es.map (·.map f)) es = true := by
  rw [← mapList_eq]
  refine sameListWith_mapList_self es fun q hq => ?_
  obtain ⟨e, he, hq⟩ := mem_subqueriesList.1 hq
  exact h e he q hq

theorem sameListWith_option_self {e : Option (Expr σ)}
    (h : ∀ x ∈ e.toList, ∀ q ∈ x.subqueries, eq (f q) q = true) :
    sameListWith eq (e.map (·.map f)).toList e.toList = true := by
  cases e with
  | none => rfl
  | some e => exact sameListWith_map_self h

end Expr

theorem Source.sameWith_map_self : ∀ s : Source σ,
    (∀ e ∈ s.conditions, ∀ q ∈ e.subqueries, eq (f q) q = true) → sameWith eq (s.map f) s = true
  | .table _, _ | .raw _, _ => by simp [map, sameWith]
  | .join _ left right condition, h => by
    simp only [conditions, List.mem_append, Option.mem_toList] at h
    have hleft := sameWith_map_self left fun e he => h e (.inl (.inl he))
    have hright := sameWith_map_self right fun e he => h e (.inl (.inr he))
    cases condition with
    | none => simp [map, sameWith, hleft, hright]
    | some e => simp [map, sameWith, hleft, hright, e.sameWith_map_self (h e (.inr rfl))]

theorem Core.sameWith_map_self {c : Core σ}
    (h : ∀ e ∈ c.exprs, ∀ q ∈ e.subqueries, eq (f q) q = true) :
    sameWith eq (c.map f) c = true := by
  simp only [exprs, List.mem_append, List.mem_flatMap] at h
  have hprojections := Expr.sameListWith_map_self fun e he => h e (.inl (.inl (.inl (.inl he))))
  have hwheres := Expr.sameListWith_map_self fun e he => h e (.inl (.inl (.inl (.inr he))))
  have hgroups := Expr.sameListWith_map_self fun e he => h e (.inl (.inl (.inr he)))
  have hhaving := Expr.sameListWith_option_self fun e he => h e (.inl (.inr he))
  have hsource := fun s hs => Source.sameWith_map_self s fun e he => h e (.inr ⟨s, hs, he⟩)
  cases hc : c.source with
  | none => simp [sameWith, map, hc, hprojections, hwheres, hgroups, hhaving]
  | some s =>
    simp [sameWith, map, hc, hprojections, hwheres, hgroups, hhaving, hsource s (by simp [hc])]

theorem SelectBody.sameAll_map_self {α β : Type} {same : α → β → Bool} {g : β → α} :
    ∀ {l : List β}, (∀ b ∈ l, same (g b) b = true) → sameAll same (l.map g) l = true
  | [], _ => rfl
  | b :: l, h => by
    obtain ⟨hb, hl⟩ := List.forall_mem_cons.1 h
    simp [sameAll, hb, sameAll_map_self hl]

theorem SelectBody.sameWith_map_self {s : SelectBody σ}
    (h : ∀ e ∈ s.exprs, ∀ q ∈ e.subqueries, eq (f q) q = true) :
    sameWith eq (s.map f) s = true := by
  simp only [exprs, List.mem_append, List.mem_flatMap, List.mem_map] at h
  have hcores : sameAll (Core.sameWith eq) (s.cores.map (·.map f)) s.cores = true :=
    sameAll_map_self fun c hc => Core.sameWith_map_self fun e he =>
      h e (.inl (.inl (.inl ⟨c, hc, he⟩)))
  have horders : sameAll (SortKey.sameWith eq) (s.orders.map (·.map f)) s.orders = true := by
    refine sameAll_map_self fun k hk => ?_
    have hexpr := k.expr.sameWith_map_self (h k.expr (.inl (.inl (.inr ⟨k, hk, rfl⟩))))
    simp [SortKey.sameWith, SortKey.map, hexpr]
  have hlimit := Expr.sameListWith_option_self fun e he => h e (.inl (.inr he))
  have hoffset := Expr.sameListWith_option_self fun e he => h e (.inr he)
  simp [sameWith, map, hcores, horders, hlimit, hoffset]

end

/-- **Every select equals itself.** -/
theorem Select.same_self (s : Select) : s.same s = true := by
  have step : Inductive fun s => s.same s = true := by
    intro body ih
    rw [same, fold_of]
    exact SelectBody.sameWith_map_self ih
  exact induction step s

/-- Every expression over selects equals itself. -/
theorem Expr.beq_self (e : Expr Select) : (e == e) = true := by
  have h := sameWith_map_self (f := fun q => q) e fun q _ => q.same_self
  rwa [map_self] at h

/-! ## Trees that equal one tree equal each other -/

theorem Number.Binary64.sameValue_euclid {x y z : Number.Binary64} (hy : x.sameValue y = true)
    (hz : x.sameValue z = true) : y.sameValue z = true := by
  simp only [sameValue, isZero, Bool.or_eq_true, Bool.and_eq_true, beq_iff_eq] at hy hz ⊢
  grind

theorem Literal.same_euclid {v w u : Literal} (hw : v.same w = true) (hu : v.same u = true) :
    w.same u = true := by
  cases v with
  | float x =>
    cases w <;> simp only [same, beq_iff_eq, reduceCtorEq] at hw
    cases u <;> simp only [same, beq_iff_eq, reduceCtorEq] at hu
    exact Number.Binary64.sameValue_euclid hw hu
  | _ =>
    simp only [same, beq_iff_eq] at hw hu
    subst hw hu
    exact beq_self_eq_true _

section

variable {σ τ ρ υ : Type} {eq : σ → τ → Bool} {eq' : σ → ρ → Bool} {eq'' : υ → ρ → Bool}
  {f : τ → υ}

namespace Expr

mutual

/-- Two expressions that equal a third one equal each other, if their subqueries do. -/
theorem sameWith_map_euclid : ∀ {e : Expr σ} {e₁ : Expr τ} {e₂ : Expr ρ},
    sameWith eq e e₁ = true → sameWith eq' e e₂ = true →
    (∀ q ∈ e.subqueries, ∀ q₁ q₂, eq q q₁ = true → eq' q q₂ = true → eq'' (f q₁) q₂ = true) →
    sameWith eq'' (e₁.map f) e₂ = true
  | .column _, e₁, e₂, h₁, h₂, _ | .wildcard _, e₁, e₂, h₁, h₂, _ | .raw _, e₁, e₂, h₁, h₂, _ => by
    cases e₁ <;> simp only [sameWith, Bool.false_eq_true, beq_iff_eq] at h₁
    cases e₂ <;> simp only [sameWith, Bool.false_eq_true, beq_iff_eq] at h₂
    simp [map, sameWith, ← h₁, h₂]
  | .literal _, e₁, e₂, h₁, h₂, _ => by
    cases e₁ <;> simp only [sameWith, Bool.false_eq_true] at h₁
    cases e₂ <;> simp only [sameWith, Bool.false_eq_true] at h₂
    exact Literal.same_euclid h₁ h₂
  | .typed _ _, e₁, e₂, h₁, h₂, _ => by
    cases e₁ <;> simp only [sameWith, Bool.false_eq_true, Bool.and_eq_true, beq_iff_eq] at h₁
    cases e₂ <;> simp only [sameWith, Bool.false_eq_true, Bool.and_eq_true, beq_iff_eq] at h₂
    simp [map, sameWith, Literal.same_euclid h₁.1 h₂.1, ← h₁.2, h₂.2]
  | .aggregate _ _ _, e₁, e₂, h₁, h₂, hq => by
    cases e₁ <;> simp only [sameWith, Bool.false_eq_true, Bool.and_eq_true, beq_iff_eq] at h₁
    cases e₂ <;> simp only [sameWith, Bool.false_eq_true, Bool.and_eq_true, beq_iff_eq] at h₂
    simp [map, sameWith, sameListWith_map_euclid h₁.1.2 h₂.1.2 hq, ← h₁.1.1, h₂.1.1, ← h₁.2, h₂.2]
  | .call _ _, e₁, e₂, h₁, h₂, hq => by
    cases e₁ <;> simp only [sameWith, Bool.false_eq_true, Bool.and_eq_true, beq_iff_eq] at h₁
    cases e₂ <;> simp only [sameWith, Bool.false_eq_true, Bool.and_eq_true, beq_iff_eq] at h₂
    simp [map, sameWith, sameListWith_map_euclid h₁.2 h₂.2 hq, ← h₁.1, h₂.1]
  | .alias _ _, e₁, e₂, h₁, h₂, hq | .isNull _ _, e₁, e₂, h₁, h₂, hq => by
    cases e₁ <;> simp only [sameWith, Bool.false_eq_true, Bool.and_eq_true, beq_iff_eq] at h₁
    cases e₂ <;> simp only [sameWith, Bool.false_eq_true, Bool.and_eq_true, beq_iff_eq] at h₂
    simp [map, sameWith, sameWith_map_euclid h₁.1 h₂.1 hq, ← h₁.2, h₂.2]
  | .distinct _, e₁, e₂, h₁, h₂, hq | .not _, e₁, e₂, h₁, h₂, hq | .grouping _, e₁, e₂, h₁, h₂, hq
  | .caseSensitive _, e₁, e₂, h₁, h₂, hq => by
    cases e₁ <;> simp only [sameWith, Bool.false_eq_true] at h₁
    cases e₂ <;> simp only [sameWith, Bool.false_eq_true] at h₂
    simpa only [map, sameWith] using sameWith_map_euclid h₁ h₂ hq
  | .binary _ _ _, e₁, e₂, h₁, h₂, hq => by
    cases e₁ <;> simp only [sameWith, Bool.false_eq_true, Bool.and_eq_true, beq_iff_eq] at h₁
    cases e₂ <;> simp only [sameWith, Bool.false_eq_true, Bool.and_eq_true, beq_iff_eq] at h₂
    have hl := sameWith_map_euclid h₁.1.1 h₂.1.1 fun q hmem => hq q (List.mem_append_left _ hmem)
    have hr := sameWith_map_euclid h₁.2 h₂.2 fun q hmem => hq q (List.mem_append_right _ hmem)
    simp [map, sameWith, hl, hr, ← h₁.1.2, h₂.1.2]
  | .inList _ _ _, e₁, e₂, h₁, h₂, hq => by
    cases e₁ <;> simp only [sameWith, Bool.false_eq_true, Bool.and_eq_true, beq_iff_eq] at h₁
    cases e₂ <;> simp only [sameWith, Bool.false_eq_true, Bool.and_eq_true, beq_iff_eq] at h₂
    have he := sameWith_map_euclid h₁.1.1 h₂.1.1 fun q hmem => hq q (List.mem_append_left _ hmem)
    have hlist := sameListWith_map_euclid h₁.1.2 h₂.1.2 fun q hmem =>
      hq q (List.mem_append_right _ hmem)
    simp [map, sameWith, he, hlist, ← h₁.2, h₂.2]
  | .inSubquery _ q _, e₁, e₂, h₁, h₂, hq => by
    cases e₁ <;> simp only [sameWith, Bool.false_eq_true, Bool.and_eq_true, beq_iff_eq] at h₁
    cases e₂ <;> simp only [sameWith, Bool.false_eq_true, Bool.and_eq_true, beq_iff_eq] at h₂
    have he := sameWith_map_euclid h₁.1.1 h₂.1.1 fun q hmem => hq q (List.mem_append_left _ hmem)
    have hsub := hq q (List.mem_append_right _ (List.mem_singleton_self q)) _ _ h₁.1.2 h₂.1.2
    simp [map, sameWith, he, hsub, ← h₁.2, h₂.2]

theorem sameListWith_map_euclid : ∀ {es : List (Expr σ)} {es₁ : List (Expr τ)}
    {es₂ : List (Expr ρ)}, sameListWith eq es es₁ = true → sameListWith eq' es es₂ = true →
    (∀ q ∈ subqueriesList es, ∀ q₁ q₂, eq q q₁ = true → eq' q q₂ = true →
      eq'' (f q₁) q₂ = true) →
    sameListWith eq'' (mapList f es₁) es₂ = true
  | [], es₁, es₂, h₁, h₂, _ => by
    cases es₁ <;> simp only [sameListWith, Bool.false_eq_true] at h₁
    cases es₂ <;> first | rfl | cases h₂
  | e :: es, es₁, es₂, h₁, h₂, hq => by
    cases es₁ <;> simp only [sameListWith, Bool.false_eq_true, Bool.and_eq_true] at h₁
    cases es₂ <;> simp only [sameListWith, Bool.false_eq_true, Bool.and_eq_true] at h₂
    have he := sameWith_map_euclid h₁.1 h₂.1 fun q hmem => hq q (List.mem_append_left _ hmem)
    have hes := sameListWith_map_euclid h₁.2 h₂.2 fun q hmem =>
      hq q (List.mem_append_right _ hmem)
    simp [mapList, sameListWith, he, hes]

end

theorem sameListWith_euclid {es : List (Expr σ)} {es₁ : List (Expr τ)} {es₂ : List (Expr ρ)}
    (h₁ : sameListWith eq es es₁ = true) (h₂ : sameListWith eq' es es₂ = true)
    (hq : ∀ e ∈ es, ∀ q ∈ e.subqueries, ∀ q₁ q₂, eq q q₁ = true → eq' q q₂ = true →
      eq'' (f q₁) q₂ = true) :
    sameListWith eq'' (es₁.map (·.map f)) es₂ = true := by
  rw [← mapList_eq]
  refine sameListWith_map_euclid h₁ h₂ fun q hmem => ?_
  obtain ⟨e, he, hmem⟩ := mem_subqueriesList.1 hmem
  exact hq e he q hmem

theorem sameListWith_option_euclid {e : Option (Expr σ)} {e₁ : Option (Expr τ)}
    {e₂ : Option (Expr ρ)} (h₁ : sameListWith eq e.toList e₁.toList = true)
    (h₂ : sameListWith eq' e.toList e₂.toList = true)
    (hq : ∀ x ∈ e.toList, ∀ q ∈ x.subqueries, ∀ q₁ q₂, eq q q₁ = true → eq' q q₂ = true →
      eq'' (f q₁) q₂ = true) :
    sameListWith eq'' (e₁.map (·.map f)).toList e₂.toList = true := by
  have h := sameListWith_euclid h₁ h₂ hq
  cases e₁ <;> exact h

end Expr

theorem Source.sameWith_map_euclid : ∀ {s : Source σ} {s₁ : Source τ} {s₂ : Source ρ},
    sameWith eq s s₁ = true → sameWith eq' s s₂ = true →
    (∀ e ∈ s.conditions, ∀ q ∈ e.subqueries, ∀ q₁ q₂, eq q q₁ = true → eq' q q₂ = true →
      eq'' (f q₁) q₂ = true) →
    sameWith eq'' (s₁.map f) s₂ = true
  | .table _, s₁, s₂, h₁, h₂, _ | .raw _, s₁, s₂, h₁, h₂, _ => by
    cases s₁ <;> simp only [sameWith, Bool.false_eq_true, beq_iff_eq] at h₁
    cases s₂ <;> simp only [sameWith, Bool.false_eq_true, beq_iff_eq] at h₂
    simp [map, sameWith, ← h₁, h₂]
  | .join _ left right condition, s₁, s₂, h₁, h₂, hq => by
    simp only [conditions, List.mem_append, Option.mem_toList] at hq
    cases s₁ <;> simp only [sameWith, Bool.false_eq_true, Bool.and_eq_true, beq_iff_eq] at h₁
    cases s₂ <;> simp only [sameWith, Bool.false_eq_true, Bool.and_eq_true, beq_iff_eq] at h₂
    have hleft := sameWith_map_euclid h₁.1.1.2 h₂.1.1.2 fun e he => hq e (.inl (.inl he))
    have hright := sameWith_map_euclid h₁.1.2 h₂.1.2 fun e he => hq e (.inl (.inr he))
    rename_i condition₁ _ _ _ condition₂
    cases condition <;> cases condition₁ <;> cases condition₂ <;>
      simp only [Bool.false_eq_true, and_false] at h₁ h₂
    · simp [map, sameWith, hleft, hright, ← h₁.1.1.1, h₂.1.1.1]
    · have hon := Expr.sameWith_map_euclid h₁.2 h₂.2 (hq _ (.inr rfl))
      simp [map, sameWith, hleft, hright, hon, ← h₁.1.1.1, h₂.1.1.1]

theorem Core.sameWith_map_euclid {c : Core σ} {c₁ : Core τ} {c₂ : Core ρ}
    (h₁ : sameWith eq c c₁ = true) (h₂ : sameWith eq' c c₂ = true)
    (hq : ∀ e ∈ c.exprs, ∀ q ∈ e.subqueries, ∀ q₁ q₂, eq q q₁ = true → eq' q q₂ = true →
      eq'' (f q₁) q₂ = true) :
    sameWith eq'' (c₁.map f) c₂ = true := by
  simp only [exprs, List.mem_append, List.mem_flatMap] at hq
  simp only [sameWith, Bool.and_eq_true, beq_iff_eq] at h₁ h₂
  obtain ⟨⟨⟨⟨⟨hprojections₁, hsource₁⟩, hwheres₁⟩, hgroups₁⟩, hhaving₁⟩, hdistinct₁⟩ := h₁
  obtain ⟨⟨⟨⟨⟨hprojections₂, hsource₂⟩, hwheres₂⟩, hgroups₂⟩, hhaving₂⟩, hdistinct₂⟩ := h₂
  have hprojections := Expr.sameListWith_euclid hprojections₁ hprojections₂ fun e he =>
    hq e (.inl (.inl (.inl (.inl he))))
  have hwheres := Expr.sameListWith_euclid hwheres₁ hwheres₂ fun e he =>
    hq e (.inl (.inl (.inl (.inr he))))
  have hgroups := Expr.sameListWith_euclid hgroups₁ hgroups₂ fun e he =>
    hq e (.inl (.inl (.inr he)))
  have hhaving := Expr.sameListWith_option_euclid hhaving₁ hhaving₂ fun e he =>
    hq e (.inl (.inr he))
  cases hc : c.source <;> cases hc₁ : c₁.source <;> cases hc₂ : c₂.source <;>
    simp only [hc, hc₁, hc₂, Bool.false_eq_true] at hsource₁ hsource₂
  · simp [sameWith, map, hc₁, hc₂, hprojections, hwheres, hgroups, hhaving, ← hdistinct₁,
      hdistinct₂]
  · have hsource := Source.sameWith_map_euclid hsource₁ hsource₂ fun e he =>
      hq e (.inr ⟨_, by simp [hc], he⟩)
    simp [sameWith, map, hc₁, hc₂, hprojections, hwheres, hgroups, hhaving, hsource, ← hdistinct₁,
      hdistinct₂]

theorem SelectBody.sameAll_euclid {α β γ δ : Type} {same : α → β → Bool} {same' : α → γ → Bool}
    {same'' : δ → γ → Bool} {g : β → δ} : ∀ {l : List α} {l₁ : List β} {l₂ : List γ},
    sameAll same l l₁ = true → sameAll same' l l₂ = true →
    (∀ a ∈ l, ∀ b c, same a b = true → same' a c = true → same'' (g b) c = true) →
    sameAll same'' (l₁.map g) l₂ = true
  | [], l₁, l₂, h₁, h₂, _ => by
    cases l₁ <;> simp only [sameAll, Bool.false_eq_true] at h₁
    cases l₂ <;> first | rfl | cases h₂
  | a :: l, l₁, l₂, h₁, h₂, h => by
    cases l₁ <;> simp only [sameAll, Bool.false_eq_true, Bool.and_eq_true] at h₁
    cases l₂ <;> simp only [sameAll, Bool.false_eq_true, Bool.and_eq_true] at h₂
    obtain ⟨ha, hl⟩ := List.forall_mem_cons.1 h
    simp [sameAll, ha _ _ h₁.1 h₂.1, sameAll_euclid h₁.2 h₂.2 hl]

theorem SelectBody.sameWith_map_euclid {s : SelectBody σ} {s₁ : SelectBody τ} {s₂ : SelectBody ρ}
    (h₁ : sameWith eq s s₁ = true) (h₂ : sameWith eq' s s₂ = true)
    (hq : ∀ e ∈ s.exprs, ∀ q ∈ e.subqueries, ∀ q₁ q₂, eq q q₁ = true → eq' q q₂ = true →
      eq'' (f q₁) q₂ = true) :
    sameWith eq'' (s₁.map f) s₂ = true := by
  simp only [exprs, List.mem_append, List.mem_flatMap, List.mem_map] at hq
  simp only [sameWith, Bool.and_eq_true, beq_iff_eq] at h₁ h₂
  obtain ⟨⟨⟨⟨hcores₁, horders₁⟩, hlimit₁⟩, hoffset₁⟩, hlock₁⟩ := h₁
  obtain ⟨⟨⟨⟨hcores₂, horders₂⟩, hlimit₂⟩, hoffset₂⟩, hlock₂⟩ := h₂
  have hcores : sameAll (Core.sameWith eq'') (s₁.cores.map (·.map f)) s₂.cores = true :=
    sameAll_euclid hcores₁ hcores₂ fun c hc _ _ h h' =>
      Core.sameWith_map_euclid h h' fun e he => hq e (.inl (.inl (.inl ⟨c, hc, he⟩)))
  have horders : sameAll (SortKey.sameWith eq'') (s₁.orders.map (·.map f)) s₂.orders = true := by
    refine sameAll_euclid horders₁ horders₂ fun k hk k₁ k₂ h h' => ?_
    simp only [SortKey.sameWith, Bool.and_eq_true, beq_iff_eq] at h h'
    have hexpr := Expr.sameWith_map_euclid h.1 h'.1 (hq k.expr (.inl (.inl (.inr ⟨k, hk, rfl⟩))))
    simp [SortKey.sameWith, SortKey.map, hexpr, ← h.2, h'.2]
  have hlimit := Expr.sameListWith_option_euclid hlimit₁ hlimit₂ fun e he => hq e (.inl (.inr he))
  have hoffset := Expr.sameListWith_option_euclid hoffset₁ hoffset₂ fun e he => hq e (.inr he)
  simp [sameWith, map, hcores, horders, hlimit, hoffset, ← hlock₁, hlock₂]

end

/-- **Selects that equal one select** equal each other. -/
theorem Select.same_euclid (s : Select) :
    ∀ s₁ s₂, s.same s₁ = true → s.same s₂ = true → s₁.same s₂ = true := by
  have step : Inductive fun s => ∀ s₁ s₂, s.same s₁ = true → s.same s₂ = true →
      s₁.same s₂ = true := by
    rintro body ih ⟨body₁⟩ s₂ h₁ h₂
    rw [same, fold_of] at h₁ h₂ ⊢
    refine SelectBody.sameWith_map_euclid h₁ h₂ fun e he q hq => ?_
    rw [SelectBody.exprs_map] at he
    obtain ⟨e', he', rfl⟩ := List.mem_map.1 he
    rw [Expr.subqueries_map] at hq
    obtain ⟨q', hq', rfl⟩ := List.mem_map.1 hq
    exact ih e' he' q' hq'
  exact induction step s

/-- Expressions that equal one expression equal each other. -/
theorem Expr.beq_euclid {e e₁ e₂ : Expr Select} (h₁ : (e == e₁) = true) (h₂ : (e == e₂) = true) :
    (e₁ == e₂) = true := by
  have h := sameWith_map_euclid (f := fun q => q) h₁ h₂ fun q _ q₁ q₂ => q.same_euclid q₁ q₂
  rwa [map_self] at h

/-- **Equality of expressions** over selects is an equivalence. -/
instance : EquivBEq (Expr Select) where
  rfl {e} := e.beq_self
  symm h := Expr.beq_euclid h (Expr.beq_self _)
  trans h h' := Expr.beq_euclid (Expr.beq_euclid h (Expr.beq_self _)) h'

/-! ## Operations keep equality -/

namespace Expr

variable {σ τ : Type} {eq : σ → τ → Bool}

theorem sameWith_unaliased : ∀ {e : Expr σ} {e' : Expr τ}, sameWith eq e e' = true →
    sameWith eq e.unaliased e'.unaliased = true
  | .alias e _, e', h => by
    cases e' <;> simp only [sameWith, Bool.false_eq_true, Bool.and_eq_true] at h
    simpa only [unaliased] using sameWith_unaliased h.1
  | .column _, e', h | .wildcard _, e', h | .literal _, e', h | .typed _ _, e', h
  | .aggregate _ _ _, e', h | .call _ _, e', h | .distinct _, e', h | .binary _ _ _, e', h
  | .not _, e', h | .isNull _ _, e', h | .inList _ _ _, e', h | .inSubquery _ _ _, e', h
  | .grouping _, e', h | .caseSensitive _, e', h | .raw _, e', h => by
    cases e' <;> first | exact h | cases h

theorem sameWith_unmarked : ∀ {e : Expr σ} {e' : Expr τ}, sameWith eq e e' = true →
    sameWith eq e.unmarked e'.unmarked = true
  | .alias e _, e', h => by
    cases e' <;> simp only [sameWith, Bool.false_eq_true, Bool.and_eq_true] at h
    simp only [unmarked, sameWith, Bool.and_eq_true]
    exact ⟨sameWith_unmarked h.1, h.2⟩
  | .distinct e, e', h => by
    cases e' <;> simp only [sameWith, Bool.false_eq_true] at h
    simpa only [unmarked] using sameWith_unmarked h
  | .column _, e', h | .wildcard _, e', h | .literal _, e', h | .typed _ _, e', h
  | .aggregate _ _ _, e', h | .call _ _, e', h | .binary _ _ _, e', h
  | .not _, e', h | .isNull _ _, e', h | .inList _ _ _, e', h | .inSubquery _ _ _, e', h
  | .grouping _, e', h | .caseSensitive _, e', h | .raw _, e', h => by
    cases e' <;> first | exact h | cases h

mutual

theorem sameWith_rename (r : Renaming) : ∀ {e : Expr σ} {e' : Expr τ}, sameWith eq e e' = true →
    sameWith eq (e.rename r) (e'.rename r) = true
  | .column _, e', h | .wildcard _, e', h | .raw _, e', h => by
    cases e' <;> simp only [sameWith, Bool.false_eq_true, beq_iff_eq] at h
    simp [rename, sameWith, h]
  | .literal _, e', h | .typed _ _, e', h => by
    cases e' <;> exact h
  | .aggregate _ _ _, e', h => by
    cases e' <;> simp only [sameWith, Bool.false_eq_true, Bool.and_eq_true] at h
    simp only [rename, sameWith, Bool.and_eq_true]
    exact ⟨⟨h.1.1, sameListWith_rename r h.1.2⟩, h.2⟩
  | .call _ _, e', h => by
    cases e' <;> simp only [sameWith, Bool.false_eq_true, Bool.and_eq_true, beq_iff_eq] at h
    simp only [rename, sameWith, Bool.and_eq_true, beq_iff_eq]
    exact ⟨by rw [h.1], sameListWith_rename r h.2⟩
  | .alias _ _, e', h | .isNull _ _, e', h => by
    cases e' <;> simp only [sameWith, Bool.false_eq_true, Bool.and_eq_true, beq_iff_eq] at h
    simp only [rename, sameWith, Bool.and_eq_true, beq_iff_eq]
    exact ⟨sameWith_rename r h.1, by rw [h.2]⟩
  | .distinct _, e', h | .not _, e', h | .grouping _, e', h | .caseSensitive _, e', h => by
    cases e' <;> simp only [sameWith, Bool.false_eq_true] at h
    simp only [rename, sameWith]
    exact sameWith_rename r h
  | .binary _ _ _, e', h => by
    cases e' <;> simp only [sameWith, Bool.false_eq_true, Bool.and_eq_true] at h
    simp only [rename, sameWith, Bool.and_eq_true]
    exact ⟨⟨sameWith_rename r h.1.1, h.1.2⟩, sameWith_rename r h.2⟩
  | .inList _ _ _, e', h => by
    cases e' <;> simp only [sameWith, Bool.false_eq_true, Bool.and_eq_true] at h
    simp only [rename, sameWith, Bool.and_eq_true]
    exact ⟨⟨sameWith_rename r h.1.1, sameListWith_rename r h.1.2⟩, h.2⟩
  | .inSubquery _ _ _, e', h => by
    cases e' <;> simp only [sameWith, Bool.false_eq_true, Bool.and_eq_true] at h
    simp only [rename, sameWith, Bool.and_eq_true]
    exact ⟨⟨sameWith_rename r h.1.1, h.1.2⟩, h.2⟩

theorem sameListWith_rename (r : Renaming) : ∀ {es : List (Expr σ)} {es' : List (Expr τ)},
    sameListWith eq es es' = true → sameListWith eq (renameList r es) (renameList r es') = true
  | [], es', h => by
    cases es' <;> exact h
  | e :: es, es', h => by
    cases es' <;> simp only [sameListWith, Bool.false_eq_true, Bool.and_eq_true] at h
    simp only [renameList, sameListWith, Bool.and_eq_true]
    exact ⟨sameWith_rename r h.1, sameListWith_rename r h.2⟩

end

/-- **Equal expressions** stay equal without marks and aliases and in lower case. -/
theorem sameWith_normalized {e : Expr σ} {e' : Expr τ} (h : sameWith eq e e' = true) :
    sameWith eq e.normalized e'.normalized = true :=
  sameWith_rename _ (sameWith_unaliased (sameWith_unmarked h))

end Expr

end Transact
