import Mathlib.Data.Finset.Lattice.Lemmas
import Transact.Proofs.Plan.Fresh

/-!
# The search for fresh names

A generator of names keeps the finite set of those that are taken. Asked for a name it goes through
the candidates one by one until one is free, hands it out, and takes it. `Finds` is the search, one
candidate after the other and without a bound; `Generates` is a run over several requests.

* `Fresh.finds_iff`: a search ends at the first candidate that is free.
* `Fresh.generates_iff`: every run ends, and hands out the names of `pickAll`.
* `Fresh.generates_fresh`: every request gets the first candidate that is free, whatever was
  requested before, so that the names of a run are all new.
-/

set_option autoImplicit false

namespace Transact.Fresh

open Text

/-! ## One search -/

/-- The search that has come to candidate `j` ends at candidate `k`: it goes on while the candidate
is taken. -/
inductive Finds (taken : Finset String) (base : String) : Nat → Nat → Prop
  | here {k : Nat} : lower (candidate base k) ∉ taken → Finds taken base k k
  | next {j k : Nat} :
    lower (candidate base j) ∈ taken → Finds taken base (j + 1) k → Finds taken base j k

section

variable {taken : Finset String} {base : String} {j k : Nat}

/-- A search passes over what is taken and ends at what is free. -/
theorem Finds.passes (h : Finds taken base j k) :
    lower (candidate base k) ∉ taken ∧
      ∀ i, j ≤ i → i < k → lower (candidate base i) ∈ taken := by
  induction h with
  | here hfree => exact ⟨hfree, fun i hle hlt => absurd hlt (Nat.not_lt.2 hle)⟩
  | @next j k htaken _ ih =>
    refine ⟨ih.1, fun i hle hlt => ?_⟩
    rcases Nat.eq_or_lt_of_le hle with rfl | hle
    · exact htaken
    · exact ih.2 i hle hlt

/-- By induction on the number `n` of candidates that are still to be passed over. -/
theorem finds_of_passes (hfree : lower (candidate base k) ∉ taken) :
    ∀ n j, j + n = k → (∀ i, j ≤ i → i < k → lower (candidate base i) ∈ taken) →
      Finds taken base j k
  | 0, _, rfl, _ => .here hfree
  | n + 1, j, hn, h => by
    have ih := finds_of_passes hfree n (j + 1) (by omega) fun i hle hlt => h i (by omega) hlt
    exact .next (h j (Nat.le_refl j) (by omega)) ih

/-- **A search ends** at the first candidate that is free. -/
theorem finds_iff :
    Finds taken base 0 k ↔
      lower (candidate base k) ∉ taken ∧ ∀ j < k, lower (candidate base j) ∈ taken := by
  constructor
  · intro h
    exact ⟨h.passes.1, fun j hj => h.passes.2 j (Nat.zero_le j) hj⟩
  · rintro ⟨hfree, htaken⟩
    exact finds_of_passes hfree k 0 (Nat.zero_add k) fun i _ hi => htaken i hi

theorem Finds.unique {k' : Nat} (h : Finds taken base 0 k) (h' : Finds taken base 0 k') :
    k = k' := by
  rw [finds_iff] at h h'
  rcases Nat.lt_trichotomy k k' with hlt | rfl | hgt
  · exact absurd (h'.2 k hlt) h.1
  · rfl
  · exact absurd (h.2 k' hgt) h'.1

end

/-- What is picked is what the search finds. -/
theorem exists_finds (taken : List String) (base : String) :
    ∃ k, Finds taken.toFinset base 0 k ∧ pick taken base = candidate base k := by
  obtain ⟨k, hpick, hfree, hbefore⟩ := exists_pick taken base
  refine ⟨k, finds_iff.2 ?_, hpick⟩
  simp only [List.mem_toFinset]
  exact ⟨hfree, hbefore⟩

/-! ## A run -/

/-- The requests get these names one after the other, each of which is taken from then on: from the
names that are taken at first to those that are in the end. -/
inductive Generates : Finset String → List String → List String → Finset String → Prop
  | done {taken : Finset String} : Generates taken [] [] taken
  | request {taken after : Finset String} {base : String} {k : Nat} {bases names : List String} :
    Finds taken base 0 k →
      Generates (insert (lower (candidate base k)) taken) bases names after →
      Generates taken (base :: bases) (candidate base k :: names) after

theorem generates_pickAll : ∀ bases taken : List String,
    Generates taken.toFinset bases (pickAll taken bases)
      (taken.toFinset ∪ ((pickAll taken bases).map lower).toFinset)
  | [], taken => by
    rw [pickAll, List.map_nil, List.toFinset_nil, Finset.union_empty]
    exact .done
  | base :: bases, taken => by
    obtain ⟨k, hfinds, hpick⟩ := exists_finds taken base
    have ih := generates_pickAll bases (lower (candidate base k) :: taken)
    rw [List.toFinset_cons, Finset.insert_union_comm] at ih
    rw [pickAll, hpick, List.map_cons, List.toFinset_cons]
    exact .request hfinds ih

theorem Generates.unique {taken after after' : Finset String} {bases names names' : List String}
    (h : Generates taken bases names after) (h' : Generates taken bases names' after') :
    names = names' ∧ after = after' := by
  induction h generalizing names' after' with
  | done =>
    cases h'
    exact ⟨rfl, rfl⟩
  | request hfinds _ ih =>
    cases h' with
    | request hfinds' hrest =>
      obtain rfl := hfinds.unique hfinds'
      obtain ⟨rfl, rfl⟩ := ih hrest
      exact ⟨rfl, rfl⟩

/-- **Every run ends**, with the names of `pickAll` taken besides those that were at first. -/
theorem generates_iff {taken bases names : List String} {after : Finset String} :
    Generates taken.toFinset bases names after ↔
      names = pickAll taken bases ∧ after = taken.toFinset ∪ (names.map lower).toFinset := by
  constructor
  · intro h
    obtain ⟨rfl, rfl⟩ := h.unique (generates_pickAll bases taken)
    exact ⟨rfl, rfl⟩
  · rintro ⟨rfl, rfl⟩
    exact generates_pickAll bases taken

/-- A request more is one more name, which avoids those before it. -/
theorem exists_pickAll_concat (base : String) : ∀ bases taken : List String,
    ∃ k, pickAll taken (bases ++ [base]) = pickAll taken bases ++ [candidate base k] ∧
      lower (candidate base k) ∉ taken ++ (pickAll taken bases).map lower ∧
      ∀ j < k, lower (candidate base j) ∈ taken ++ (pickAll taken bases).map lower
  | [], taken => by
    obtain ⟨k, hpick, hfree, hbefore⟩ := exists_pick taken base
    refine ⟨k, by simp [pickAll, hpick], by simpa [pickAll] using hfree, ?_⟩
    simpa [pickAll] using hbefore
  | b :: bases, taken => by
    obtain ⟨k, hpick, hfree, hbefore⟩ :=
      exists_pickAll_concat base bases (lower (pick taken b) :: taken)
    refine ⟨k, ?_, ?_, ?_⟩
    · rw [List.cons_append, pickAll, pickAll, hpick, List.cons_append]
    · simpa [pickAll, or_left_comm] using hfree
    · simpa [pickAll, or_left_comm] using hbefore

/-- **Fresh names**: whatever names are in use at first and whatever is requested, a run ends, and
the names that it hands out are taken besides those. A request gets its base if this is free, letter
case apart, and else the first numbered candidate that is. So the names of a run differ from each
other and from those in use at first, whatever the case of their letters. -/
theorem generates_fresh (used bases : List String) :
    (∀ names after, Generates (used.map lower).toFinset bases names after ↔
      names = pickAll (used.map lower) bases ∧
        after = (used.map lower).toFinset ∪ (names.map lower).toFinset) ∧
    (∀ base, ∃ k,
      pickAll (used.map lower) (bases ++ [base]) =
        pickAll (used.map lower) bases ++ [candidate base k] ∧
      (∀ n ∈ used ++ pickAll (used.map lower) bases, lower n ≠ lower (candidate base k)) ∧
      ∀ j < k, ∃ n ∈ used ++ pickAll (used.map lower) bases, lower n = lower (candidate base j)) ∧
    ((pickAll (used.map lower) bases).map lower).Nodup ∧
    ∀ n ∈ pickAll (used.map lower) bases, ∀ u ∈ used, lower n ≠ lower u := by
  refine ⟨fun _ _ => generates_iff, fun base => ?_, (pickAll_fresh _ _).2, fun n hn u hu he => ?_⟩
  · obtain ⟨k, hpick, hfree, hbefore⟩ := exists_pickAll_concat base bases (used.map lower)
    rw [← List.map_append] at hfree hbefore
    refine ⟨k, hpick, fun n hn he => hfree ?_, fun j hj => List.mem_map.1 (hbefore j hj)⟩
    rw [← he]
    exact List.mem_map_of_mem hn
  · have hfree := (pickAll_fresh bases (used.map lower)).1 n hn
    rw [he] at hfree
    exact hfree (List.mem_map_of_mem hu)

/-- Names in use that differ from preferred ones in letter case only, or are numbered already. -/
def squatters : List String := ["__RN", "__rn_1", "name"]

theorem generates_fresh_squatters :
    Generates (squatters.map lower).toFinset ["__rn", "__rn", "__order", "__order"]
        ["__rn_2", "__rn_3", "__order", "__order_1"]
        {"__rn", "__rn_1", "name", "__rn_2", "__rn_3", "__order", "__order_1"} ∧
      ("name" ∈ squatters ∧ lower "__rn_2" ≠ lower "name") := by
  have hnames : pickAll (squatters.map lower) ["__rn", "__rn", "__order", "__order"] =
      ["__rn_2", "__rn_3", "__order", "__order_1"] := by decide +kernel
  obtain ⟨hgenerates, -, -, hnew⟩ :=
    generates_fresh squatters ["__rn", "__rn", "__order", "__order"]
  rw [hnames] at hgenerates hnew
  refine ⟨(hgenerates _ _).2 ⟨rfl, by decide +kernel⟩, by decide, ?_⟩
  exact hnew "__rn_2" (by decide) "name" (by decide)

end Transact.Fresh
