import Mathlib.Data.List.Nodup
import Mathlib.Data.List.Perm.Subperm
import Transact.Plan.Fresh
import Transact.Proofs.Text.Digits

/-!
# Fresh names are fresh

The candidates for a name stay different in lower case (`Fresh.lower_candidate_injective`), so one
more of them than there are taken names includes a free one (`Fresh.exists_pick`). The names of the
compiler therefore differ from each other and from every name that the statement uses, whatever the
case of their letters (`SyntheticNames.nodup_avoiding`, `SyntheticNames.lower_ne_of_mem_avoiding`).
They depend on nothing but the set of those names (`SyntheticNames.avoiding_congr`).
-/

set_option autoImplicit false

namespace Transact

/-! ## Lower case of a longer text -/

namespace Text

/-- What follows a text can change its lower case only within the letters of it: the length is the
same, and what follows is lower-cased after it. -/
theorem lowerAfter_append (ds : List Char) : ∀ before cs : List Char,
    ∃ front, lowerAfter before (cs ++ ds) = front ++ lowerAfter (cs.reverse ++ before) ds ∧
      front.length = (lowerAfter before cs).length
  | before, [] => ⟨[], rfl, rfl⟩
  | before, c :: cs => by
    obtain ⟨front, hfront, hlen⟩ := lowerAfter_append ds (c :: before) cs
    have hrev : (c :: cs).reverse ++ before = cs.reverse ++ c :: before := by simp
    rw [List.cons_append, lowerAfter, hfront, hrev, lowerAfter]
    refine ⟨_, (List.append_assoc ..).symm, ?_⟩
    rw [List.length_append, List.length_append, hlen]
    split <;> simp

theorem toLower_eq_self {c : Char} (h : c.isUpper = false) : c.toLower = c := by
  unfold Char.toLower
  exact dif_neg (of_decide_eq_false h)

/-- ASCII characters that are not capitals are in lower case. -/
theorem lowerAfter_eq_self : ∀ (before cs : List Char),
    (∀ c ∈ cs, c.toNat < 128 ∧ c.isUpper = false) → lowerAfter before cs = cs
  | _, [], _ => rfl
  | before, c :: cs, h => by
    obtain ⟨⟨hascii, hsmall⟩, h⟩ := List.forall_mem_cons.1 h
    have hsigma : c ≠ 'Σ' := by
      rintro rfl
      exact absurd hascii (by decide)
    rw [lowerAfter, if_neg hsigma, lowerChar, if_pos hascii, toLower_eq_self hsmall,
      lowerAfter_eq_self _ cs h]
    rfl

theorem ascii_of_isDigit {c : Char} (h : isDigit c = true) :
    c.toNat < 128 ∧ c.isUpper = false := by
  obtain ⟨h0, h9⟩ : 48 ≤ c.toNat ∧ c.toNat ≤ 57 := Char.isDigit_iff_toNat.1 (isDigit_iff.1 h)
  refine ⟨by omega, decide_eq_false ?_⟩
  rintro ⟨hA, -⟩
  have : 65 ≤ c.toNat := hA
  omega

/-- Digits and underscores have no case. -/
theorem lowerAfter_caseless (before : List Char) {cs : List Char}
    (h : ∀ c ∈ cs, isDigit c = true ∨ c = '_') : lowerAfter before cs = cs := by
  refine lowerAfter_eq_self before cs fun c hc => ?_
  rcases h c hc with hc | rfl
  · exact ascii_of_isDigit hc
  · decide

end Text

/-! ## One name -/

namespace Fresh

open Text

theorem toList_candidate (base : String) {k : Nat} (hk : k ≠ 0) :
    (candidate base k).toList = base.toList ++ '_' :: digits k := by
  simp [candidate, hk, natural]

/-- The lower case of a numbered candidate: that of the base, up to the case of sigmas, then the
number. -/
theorem toList_lower_candidate (base : String) {k : Nat} (hk : k ≠ 0) :
    ∃ front, (lower (candidate base k)).toList = front ++ '_' :: digits k ∧
      front.length = (lower base).toList.length := by
  obtain ⟨front, hfront, hlen⟩ := lowerAfter_append ('_' :: digits k) [] base.toList
  refine ⟨front, ?_, by rw [hlen, lower, String.toList_ofList]⟩
  have hcaseless : ∀ c ∈ '_' :: digits k, isDigit c = true ∨ c = '_' := by
    intro c hc
    rcases List.mem_cons.1 hc with rfl | hc
    · exact .inr rfl
    · exact .inl (isDigit_of_mem_digits hc)
  rw [lower, String.toList_ofList, toList_candidate base hk, hfront,
    lowerAfter_caseless _ hcaseless]

/-- **The candidates differ**, also in lower case. -/
theorem lower_candidate_injective {base : String} {j k : Nat}
    (h : lower (candidate base j) = lower (candidate base k)) : j = k := by
  have hlen : ∀ {i : Nat}, i ≠ 0 → lower base ≠ lower (candidate base i) := by
    intro i hi he
    obtain ⟨front, hfront, hl⟩ := toList_lower_candidate base hi
    have := congrArg (fun s => s.toList.length) he
    simp only [hfront, List.length_append, List.length_cons] at this
    omega
  by_cases hj : j = 0 <;> by_cases hk : k = 0
  · rw [hj, hk]
  · subst hj
    exact absurd h (hlen hk)
  · subst hk
    exact absurd h.symm (hlen hj)
  · obtain ⟨front, hfront, hl⟩ := toList_lower_candidate base hj
    obtain ⟨front', hfront', hl'⟩ := toList_lower_candidate base hk
    rw [h, hfront'] at hfront
    have := (List.append_inj hfront (hl'.trans hl.symm)).2
    exact (digits_injective (List.cons.inj this).2).symm

/-- **A picked name** is the first candidate that is free. -/
theorem exists_pick (taken : List String) (base : String) :
    ∃ k, pick taken base = candidate base k ∧ lower (candidate base k) ∉ taken ∧
      ∀ j < k, lower (candidate base j) ∈ taken := by
  rw [pick]
  cases hf : (List.range (taken.length + 1)).find?
      (fun k => !taken.contains (lower (candidate base k))) with
  | some k =>
    obtain ⟨hfree, -, hbefore⟩ := List.find?_range_eq_some.1 hf
    exact ⟨k, rfl, by simpa using hfree, fun j hj => by simpa using hbefore j hj⟩
  | none =>
    -- the candidates are one more than the taken names, so they are not all among them
    rw [List.find?_eq_none] at hf
    have hnd : ((List.range (taken.length + 1)).map fun k => lower (candidate base k)).Nodup :=
      List.nodup_range.map fun _ _ h => lower_candidate_injective h
    have hsub :
        ((List.range (taken.length + 1)).map fun k => lower (candidate base k)) ⊆ taken := by
      intro name hname
      obtain ⟨k, hk, rfl⟩ := List.mem_map.1 hname
      simpa using hf k hk
    have hle := (List.subperm_of_subset hnd hsub).length_le
    rw [List.length_map, List.length_range] at hle
    omega

/-- A picked name is free. -/
theorem lower_pick_notMem (taken : List String) (base : String) :
    lower (pick taken base) ∉ taken := by
  obtain ⟨k, hk, hfree, -⟩ := exists_pick taken base
  rwa [hk]

/-- Only which names are taken counts, not how often or in what order. -/
theorem pick_congr {taken taken' : List String} (h : ∀ n, n ∈ taken ↔ n ∈ taken')
    (base : String) : pick taken base = pick taken' base := by
  obtain ⟨k, hk, hfree, hbefore⟩ := exists_pick taken base
  obtain ⟨k', hk', hfree', hbefore'⟩ := exists_pick taken' base
  rw [hk, hk']
  rcases Nat.lt_trichotomy k k' with hlt | rfl | hgt
  · exact absurd ((h _).2 (hbefore' k hlt)) hfree
  · rfl
  · exact absurd ((h _).1 (hbefore k' hgt)) hfree'

/-! ## Several names -/

/-- Picked names avoid the taken ones and each other. -/
theorem pickAll_fresh : ∀ (bases taken : List String),
    (∀ name ∈ pickAll taken bases, lower name ∉ taken) ∧
      ((pickAll taken bases).map lower).Nodup
  | [], _ => by simp [pickAll]
  | base :: bases, taken => by
    obtain ⟨hfresh, hnd⟩ := pickAll_fresh bases (lower (pick taken base) :: taken)
    rw [pickAll]
    constructor
    · intro name hname
      rcases List.mem_cons.1 hname with rfl | hname
      · exact lower_pick_notMem taken base
      · exact fun h => hfresh name hname (List.mem_cons_of_mem _ h)
    · rw [List.map_cons, List.nodup_cons]
      refine ⟨fun h => ?_, hnd⟩
      obtain ⟨name, hname, he⟩ := List.mem_map.1 h
      exact hfresh name hname (by rw [he]; exact List.mem_cons_self)

theorem pickAll_congr : ∀ (bases : List String) {taken taken' : List String},
    (∀ n, n ∈ taken ↔ n ∈ taken') → pickAll taken bases = pickAll taken' bases
  | [], _, _, _ => rfl
  | base :: bases, taken, taken', h => by
    have htaken : ∀ n, n ∈ lower (pick taken' base) :: taken ↔
        n ∈ lower (pick taken' base) :: taken' := fun n => by simp only [List.mem_cons, h n]
    rw [pickAll, pickAll, pick_congr h, pickAll_congr bases htaken]

/-- A character that neither a base nor a number has is in no picked name. -/
theorem notMem_of_mem_pickAll {c : Char} (hmark : c ≠ '_') (hdigit : isDigit c = false) :
    ∀ {bases taken : List String}, (∀ base ∈ bases, c ∉ base.toList) →
      ∀ name ∈ pickAll taken bases, c ∉ name.toList
  | [], _, _, _, hname => by cases hname
  | base :: bases, taken, hbases, name, hname => by
    obtain ⟨hbase, hbases⟩ := List.forall_mem_cons.1 hbases
    rcases List.mem_cons.1 hname with rfl | hname
    · have hcandidate : ∀ k, c ∉ (candidate base k).toList := by
        intro k hc
        unfold candidate at hc
        split at hc
        · exact hbase hc
        · simp only [String.toList_append, List.mem_append, natural, String.toList_ofList] at hc
          rcases hc with (hc | hc) | hc
          · exact hbase hc
          · exact hmark (List.mem_singleton.1 hc)
          · rw [isDigit_of_mem_digits hc] at hdigit
            cases hdigit
      exact hcandidate _
    · exact notMem_of_mem_pickAll hmark hdigit hbases name hname

end Fresh

/-! ## Names in use -/

theorem Expr.mem_namesList {σ : Type} {n : String} {e : Expr σ} :
    ∀ {es : List (Expr σ)}, e ∈ es → n ∈ e.names → n ∈ Expr.namesList es
  | e' :: es, he, hn => by
    rw [namesList, List.mem_append]
    rcases List.mem_cons.1 he with rfl | he
    · exact .inl hn
    · exact .inr (mem_namesList he hn)

/-- The names in the projections of a select are in use. -/
theorem SelectBody.mem_names_of_mem_projections {σ : Type} {s : SelectBody σ} {c : Core σ}
    {p : Expr σ} {n : String} (hc : s.cores.head? = some c) (hp : p ∈ c.projections)
    (hn : n ∈ p.names) : n ∈ s.names := by
  simp only [names, hc, Option.toList_some, List.flatMap_cons, List.flatMap_nil,
    List.append_nil, Core.names, List.append_assoc, List.mem_append]
  exact .inl (Expr.mem_namesList hp hn)

/-! ## The names of the compiler -/

namespace SyntheticNames

theorem toList_avoiding (used : List String) :
    (avoiding used).toList = Fresh.pickAll (used.map Text.lower) preferred.toList := rfl

/-- The names of the compiler depend on the set of names in use, letter case apart. -/
theorem avoiding_congr {used used' : List String}
    (h : ∀ n, n ∈ used.map Text.lower ↔ n ∈ used'.map Text.lower) :
    avoiding used = avoiding used' := by
  rw [avoiding, avoiding, Fresh.pickAll_congr _ h]

/-- The names of the compiler differ from each other, whatever the case of their letters. -/
theorem nodup_avoiding (used : List String) : ((avoiding used).toList.map Text.lower).Nodup := by
  rw [toList_avoiding]
  exact (Fresh.pickAll_fresh _ _).2

/-- **The names of the compiler avoid** those in use, whatever the case of their letters. -/
theorem lower_ne_of_mem_avoiding {used : List String} {name u : String}
    (hname : name ∈ (avoiding used).toList) (hu : u ∈ used) : Text.lower name ≠ Text.lower u := by
  rw [toList_avoiding] at hname
  intro h
  exact (Fresh.pickAll_fresh _ _).1 name hname (by rw [h]; exact List.mem_map_of_mem hu)

end SyntheticNames

end Transact
