import Mathlib.Order.Bounds.Basic
import Transact.Proofs.Relation.Numbering

/-!
# Groups of rows

Rows fall into groups of duplicates. `IsGroupSort` says that groups stand in the order of their
least sort keys; `Represents` that a list of rows has one row of each group, with the least sort key
of the group.

* `Represents.isGroupSort`, `Represents.exists_sort`: the sorts of the groups are the sorts of any
  representatives.
* `View.represents_of_ranks`: the rows that are numbered one in their partitions represent them.
* `View.denseRank_le_iff`: dense ranks compare as the sort keys do.
-/

set_option autoImplicit false

namespace Transact

section

variable {ρ κ γ : Type} [LinearOrder κ] {key : ρ → κ} {group : ρ → γ} {rows : List ρ}

/-- The sort keys of the rows of the group `v`. -/
def groupKeys (key : ρ → κ) (group : ρ → γ) (rows : List ρ) (v : γ) : Set κ :=
  {k | ∃ r ∈ rows, group r = v ∧ key r = k}

/-- `groups` are the groups of the rows, each of them once, in ascending order of their least sort
keys. Groups with one least key stand in any order. -/
structure IsGroupSort (key : ρ → κ) (group : ρ → γ) (rows : List ρ) (groups : List γ) : Prop where
  nodup : groups.Nodup
  mem_iff : ∀ v, v ∈ groups ↔ ∃ r ∈ rows, group r = v
  sorted : groups.Pairwise fun v w => ∀ k l, IsLeast (groupKeys key group rows v) k →
    IsLeast (groupKeys key group rows w) l → k ≤ l

/-- `firsts` has one row of each group, whose sort key is the least of the group. -/
structure Represents (key : ρ → κ) (group : ρ → γ) (rows firsts : List ρ) : Prop where
  nodup : (firsts.map group).Nodup
  cover : ∀ r ∈ rows, ∃ f ∈ firsts, group f = group r
  mem : ∀ f ∈ firsts, f ∈ rows
  least : ∀ f ∈ firsts, ∀ r ∈ rows, group r = group f → key f ≤ key r

namespace Represents

variable {firsts firsts' : List ρ}

theorem perm (h : Represents key group rows firsts) (hp : firsts'.Perm firsts) :
    Represents key group rows firsts' where
  nodup := (hp.map group).nodup_iff.2 h.nodup
  cover r hr := by
    obtain ⟨f, hf, hfr⟩ := h.cover r hr
    exact ⟨f, hp.mem_iff.2 hf, hfr⟩
  mem f hf := h.mem f (hp.mem_iff.1 hf)
  least f hf := h.least f (hp.mem_iff.1 hf)

theorem isLeast (h : Represents key group rows firsts) {f : ρ} (hf : f ∈ firsts) :
    IsLeast (groupKeys key group rows (group f)) (key f) := by
  refine ⟨⟨f, h.mem f hf, rfl, rfl⟩, ?_⟩
  rintro _ ⟨r, hr, hgroup, rfl⟩
  exact h.least f hf r hr hgroup

theorem mem_map_iff (h : Represents key group rows firsts) (v : γ) :
    v ∈ firsts.map group ↔ ∃ r ∈ rows, group r = v := by
  rw [List.mem_map]
  constructor
  · rintro ⟨f, hf, rfl⟩
    exact ⟨f, h.mem f hf, rfl⟩
  · rintro ⟨r, hr, rfl⟩
    exact h.cover r hr

/-- **Sorted representatives** sort the groups. -/
theorem isGroupSort (h : Represents key group rows firsts)
    (hs : firsts.Pairwise fun f f' => key f ≤ key f') :
    IsGroupSort key group rows (firsts.map group) where
  nodup := h.nodup
  mem_iff := h.mem_map_iff
  sorted := by
    refine List.pairwise_map.2 (hs.imp_of_mem fun {f f'} hf hf' hle k l hk hl => ?_)
    rwa [hk.unique (h.isLeast hf), hl.unique (h.isLeast hf')]

/-- Any representatives can be put in the order of sorted groups, and are sorted then. -/
theorem exists_sort (h : Represents key group rows firsts) {groups : List γ}
    (hg : IsGroupSort key group rows groups) :
    ∃ sorted, IsSort key firsts sorted ∧ sorted.map group = groups := by
  have hperm : (firsts.map group).Perm groups :=
    (List.perm_ext_iff_of_nodup h.nodup hg.nodup).2 fun v =>
      (h.mem_map_iff v).trans (hg.mem_iff v).symm
  obtain ⟨sorted, hp, rfl⟩ := exists_perm_map_eq group hperm
  refine ⟨sorted, ⟨hp, ?_⟩, rfl⟩
  exact (List.pairwise_map.1 hg.sorted).imp_of_mem fun hf hf' hle =>
    hle _ _ (h.isLeast (hp.mem_iff.1 hf)) (h.isLeast (hp.mem_iff.1 hf'))

end Represents

end

namespace View

variable {ρ V : Type} [LinearOrder V] (vw : View ρ V)

/-! ## The first row of each partition -/

/-- The rows that are numbered one. -/
def firsts (rows : List ρ) (nums : List Nat) : List ρ :=
  ((rows.zip nums).filter fun x => x.2 = 1).map Prod.fst

theorem filter_zipIdx_one (l : List ρ) :
    ((l.zipIdx 1).filter fun x => x.2 = 1).map Prod.fst = l.head?.toList := by
  cases l with
  | nil => rfl
  | cons r l =>
    have hrest : ((l.zipIdx 2).filter fun x => x.2 = 1) = [] := by
      rw [List.filter_eq_nil_iff]
      intro x hx
      have := List.le_snd_of_mem_zipIdx hx
      simp only [decide_eq_true_eq]
      omega
    rw [List.zipIdx_cons, List.filter_cons_of_pos (by simp), hrest]
    rfl

/-- In each partition the first row of some sort is numbered one, and no other. -/
theorem filter_firsts {partition : List (Expr Query)} {keys : List (Key Query)} {rows : List ρ}
    {nums : List Nat} (h : vw.Ranks ⟨.rowNumber, partition, keys⟩ rows nums) (p : List V) :
    ∃ sorted, IsSort (vw.sortKey keys) (rows.filter fun r => vw.partKey partition r = p) sorted ∧
      (firsts rows nums).filter (fun r => vw.partKey partition r = p) = sorted.head?.toList := by
  obtain ⟨sorted, hsorted, hperm⟩ := h.2 p
  refine ⟨sorted, hsorted, ?_⟩
  have hswap : (firsts rows nums).filter (fun r => vw.partKey partition r = p) =
      (((rows.zip nums).filter fun x => vw.partKey partition x.1 = p).filter
        fun x => x.2 = 1).map Prod.fst := by
    rw [firsts, List.filter_map, List.filter_filter, List.filter_filter]
    congr 2
    funext x
    exact Bool.and_comm _ _
  have hfirst := (hperm.filter fun x => x.2 = 1).map Prod.fst
  rw [← hswap, filter_zipIdx_one] at hfirst
  cases hs : sorted.head? with
  | none =>
    rw [hs] at hfirst
    exact hfirst.eq_nil
  | some r =>
    rw [hs] at hfirst
    exact List.perm_singleton.1 hfirst

/-- **The rows numbered one** represent the partitions. -/
theorem represents_of_ranks {partition : List (Expr Query)} {keys : List (Key Query)}
    {rows : List ρ} {nums : List Nat} (h : vw.Ranks ⟨.rowNumber, partition, keys⟩ rows nums) :
    Represents (vw.sortKey keys) (vw.partKey partition) rows (firsts rows nums) := by
  -- a row numbered one is the head of the sort of its partition
  have hhead : ∀ r ∈ firsts rows nums, ∃ sorted,
      IsSort (vw.sortKey keys)
        (rows.filter fun r' => vw.partKey partition r' = vw.partKey partition r) (r :: sorted) := by
    intro r hr
    obtain ⟨sorted, hsorted, hfirst⟩ := vw.filter_firsts h (vw.partKey partition r)
    have hmem : r ∈ sorted.head?.toList := by
      rw [← hfirst, List.mem_filter]
      exact ⟨hr, by simp⟩
    rw [Option.mem_toList, List.head?_eq_some_iff] at hmem
    obtain ⟨rest, rfl⟩ := hmem
    exact ⟨rest, hsorted⟩
  refine ⟨?_, fun r hr => ?_, fun f hf => ?_, fun f hf r hr hgroup => ?_⟩
  · rw [List.nodup_iff_count_le_one]
    intro p
    obtain ⟨sorted, -, hfirst⟩ := vw.filter_firsts h p
    rw [List.count_eq_countP, List.countP_map, List.countP_eq_length_filter]
    have hle : sorted.head?.toList.length ≤ 1 := by cases sorted.head? <;> simp
    rw [← hfirst] at hle
    refine le_trans (le_of_eq (congrArg List.length ?_)) hle
    congr 1
    funext r
    exact beq_eq_decide _ _
  · obtain ⟨sorted, hsorted, hfirst⟩ := vw.filter_firsts h (vw.partKey partition r)
    cases sorted with
    | nil =>
      have hmem : r ∈ rows.filter fun r' => vw.partKey partition r' = vw.partKey partition r :=
        List.mem_filter.2 ⟨hr, by simp⟩
      rw [hsorted.1.symm.eq_nil] at hmem
      simp at hmem
    | cons f rest =>
      have hmem : f ∈ (firsts rows nums).filter
          fun r' => vw.partKey partition r' = vw.partKey partition r := by
        rw [hfirst]
        exact List.mem_cons_self
      obtain ⟨hf, hgroup⟩ := List.mem_filter.1 hmem
      exact ⟨f, hf, by simpa using hgroup⟩
  · obtain ⟨sorted, hsorted⟩ := hhead f hf
    exact (List.mem_filter.1 (hsorted.1.mem_iff.1 List.mem_cons_self)).1
  · obtain ⟨sorted, hsorted⟩ := hhead f hf
    have hmem : r ∈ f :: sorted :=
      hsorted.1.mem_iff.2 (List.mem_filter.2 ⟨hr, by simpa using hgroup⟩)
    rcases List.mem_cons.1 hmem with rfl | hmem
    · exact le_refl _
    · exact (List.pairwise_cons.1 hsorted.2).1 r hmem

/-! ## Dense ranks -/

/-- **Dense ranks** compare as the sort keys do. -/
theorem denseRank_le_iff {keys : List (Key Query)} {rows : List ρ} {r r' : ρ} (hr' : r' ∈ rows) :
    vw.denseRank ⟨.denseRank, [], keys⟩ rows r ≤ vw.denseRank ⟨.denseRank, [], keys⟩ rows r' ↔
      vw.sortKey keys r ≤ vw.sortKey keys r' := by
  have hpeers : ∀ r, vw.peers ⟨.denseRank, [], keys⟩ rows r = rows := by
    intro r
    simp [peers, partKey]
  simp only [denseRank, hpeers, Nat.add_le_add_iff_right]
  constructor
  · intro hle
    by_contra hlt
    have hlt := not_le.1 hlt
    refine absurd hle (not_le.2 (Finset.card_lt_card ⟨?_, fun hsub => ?_⟩))
    · intro k hk
      obtain ⟨hk, hkr⟩ := Finset.mem_filter.1 hk
      exact Finset.mem_filter.2 ⟨hk, hkr.trans hlt⟩
    · -- the key of `r'` is before that of `r` and not before itself
      have hmem : vw.sortKey keys r' ∈ (rows.map (vw.sortKey keys)).toFinset :=
        List.mem_toFinset.2 (List.mem_map_of_mem hr')
      exact absurd (Finset.mem_filter.1 (hsub (Finset.mem_filter.2 ⟨hmem, hlt⟩))).2 (lt_irrefl _)
  · intro hle
    refine Finset.card_le_card fun k hk => ?_
    obtain ⟨hk, hkr⟩ := Finset.mem_filter.1 hk
    exact Finset.mem_filter.2 ⟨hk, hkr.trans_le hle⟩

/-- What holds of the sorted representatives of some numbering holds of some sort of the groups. -/
theorem exists_firsts_iff {partition : List (Expr Query)} {keys : List (Key Query)}
    {rows : List ρ} (A : List (List V) → Prop) :
    (∃ nums sorted, vw.Ranks ⟨.rowNumber, partition, keys⟩ rows nums ∧
        IsSort (vw.sortKey keys) (firsts rows nums) sorted ∧
        A (sorted.map (vw.partKey partition))) ↔
      ∃ groups, IsGroupSort (vw.sortKey keys) (vw.partKey partition) rows groups ∧ A groups := by
  constructor
  · rintro ⟨nums, sorted, hnums, hsorted, hA⟩
    exact ⟨_, ((vw.represents_of_ranks hnums).perm hsorted.1).isGroupSort hsorted.2, hA⟩
  · rintro ⟨groups, hgroups, hA⟩
    obtain ⟨sorted, hsorted⟩ := IsSort.exists_sort (vw.sortKey keys) rows
    obtain ⟨nums, hnums, -⟩ := vw.exists_ranks_rowNumber partition hsorted
    obtain ⟨sorted, hsorted, rfl⟩ := (vw.represents_of_ranks hnums).exists_sort hgroups
    exact ⟨nums, sorted, hnums, hsorted, hA⟩

end View

end Transact
