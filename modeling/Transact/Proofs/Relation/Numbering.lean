import Mathlib.Data.List.Perm.Basic
import Transact.Proofs.Relation.Basic

/-!
# Numbered rows

Lemmas about sorts, row numbers and select lists, from which the reading of whole queries is
assembled.

* `IsSort.iff_eq_of_lt`: when the keys differ, there is one sort.
* `View.ranks_rowNumber_nil`: row numbers without partitions number some sort of all rows.
* `View.lists_append_exprs`: expressions at the front of a select list are evaluated row by row.
* `Database.yields_page`: a query that keeps the rows whose number is past `m`, sorts by the number
  and takes `n`, gives the rows numbered `m + 1` to `m + n`.
-/

set_option autoImplicit false

namespace Transact

/-! ## Lists -/

/-- A list whose images are some rows can be put in the order of these rows. -/
theorem exists_perm_map_eq {α β : Type} (f : α → β) : ∀ {rows : List β} {l : List α},
    (l.map f).Perm rows → ∃ l' : List α, l'.Perm l ∧ l'.map f = rows
  | [], l, h => by
    have hl : l = [] := List.map_eq_nil_iff.1 h.eq_nil
    exact ⟨[], by rw [hl], rfl⟩
  | r :: rows, l, h => by
    obtain ⟨x, hx, hxr⟩ := List.mem_map.1 (h.mem_iff.2 List.mem_cons_self)
    obtain ⟨s, t, rfl⟩ := List.append_of_mem hx
    have hst : ((s ++ t).map f).Perm rows := by
      refine (List.Perm.cons_inv (a := f x) ?_)
      rw [← List.map_cons, hxr]
      exact (List.perm_middle.symm.map f).trans h
    obtain ⟨l', hl', hmap⟩ := exists_perm_map_eq f hst
    exact ⟨x :: l', (hl'.cons x).trans List.perm_middle.symm, by rw [List.map_cons, hmap, hxr]⟩

/-- The numbers of a list increase. -/
theorem pairwise_zipIdx {α : Type} : ∀ (l : List α) (k : Nat),
    (l.zipIdx k).Pairwise fun a b => a.2 < b.2
  | [], _ => List.Pairwise.nil
  | a :: l, k => by
    rw [List.zipIdx_cons, List.pairwise_cons]
    refine ⟨fun b hb => ?_, pairwise_zipIdx l (k + 1)⟩
    have := List.le_snd_of_mem_zipIdx hb
    omega

/-- The elements whose number is past `m` are those after the first `m`. -/
theorem filter_zipIdx {α : Type} : ∀ (l : List α) (k m : Nat),
    ((l.zipIdx (k + 1)).filter fun x => k + m < x.2) = (l.zipIdx (k + 1)).drop m
  | [], _, _ => by simp
  | a :: l, k, 0 => by
    rw [List.drop_zero, List.filter_eq_self]
    intro x hx
    have := List.le_snd_of_mem_zipIdx hx
    rw [decide_eq_true_eq]
    omega
  | a :: l, k, m + 1 => by
    rw [List.zipIdx_cons, List.filter_cons_of_neg (by simp), List.drop_succ_cons,
      ← filter_zipIdx l (k + 1) m]
    refine List.filter_congr fun x _ => ?_
    simp only [decide_eq_decide]
    omega

theorem map_takeTop {α β : Type} (f : α → β) (n : Option Nat) (l : List α) :
    (takeTop n l).map f = takeTop n (l.map f) := by
  cases n with
  | none => rfl
  | some n => exact List.map_take

/-! ## Sorts -/

namespace IsSort

variable {α κ : Type}

/-- There is a sort of any rows. -/
theorem exists_sort [LinearOrder κ] (key : α → κ) (rows : List α) :
    ∃ sorted, IsSort key rows sorted := by
  refine ⟨rows.mergeSort fun a b => decide (key a ≤ key b), List.mergeSort_perm _ _, ?_⟩
  have htrans : ∀ a b c : α, decide (key a ≤ key b) = true → decide (key b ≤ key c) = true →
      decide (key a ≤ key c) = true := by
    intro a b c hab hbc
    simp only [decide_eq_true_eq] at hab hbc ⊢
    exact hab.trans hbc
  have htotal : ∀ a b : α, (decide (key a ≤ key b) || decide (key b ≤ key a)) = true := by
    intro a b
    simp only [Bool.or_eq_true, decide_eq_true_eq]
    exact le_total (key a) (key b)
  exact (List.pairwise_mergeSort htrans htotal rows).imp fun hab => by simpa using hab

/-- Only which rows there are matters to a sort. -/
theorem perm_iff [LE κ] {key : α → κ} {rows rows' sorted : List α} (h : rows.Perm rows') :
    IsSort key rows sorted ↔ IsSort key rows' sorted :=
  and_congr_left fun _ => ⟨fun hs => hs.trans h, fun hs => hs.trans h.symm⟩

/-- Only how keys compare matters to a sort. -/
theorem key_iff {κ' : Type} [LE κ] [LE κ'] {key : α → κ} {key' : α → κ'} {rows sorted : List α}
    (h : ∀ a ∈ rows, ∀ b ∈ rows, key a ≤ key b ↔ key' a ≤ key' b) :
    IsSort key rows sorted ↔ IsSort key' rows sorted :=
  and_congr_right fun hp =>
    List.Pairwise.iff_of_mem fun ha hb => h _ (hp.mem_iff.1 ha) _ (hp.mem_iff.1 hb)

/-- The sorts of images are the images of sorts. -/
theorem map_iff {β : Type} [LE κ] {key : β → κ} {f : α → β} {rows : List α} {sorted : List β} :
    IsSort key (rows.map f) sorted ↔
      ∃ sorted', IsSort (fun a => key (f a)) rows sorted' ∧ sorted'.map f = sorted := by
  constructor
  · rintro ⟨hp, hs⟩
    obtain ⟨sorted', hp', rfl⟩ := exists_perm_map_eq f hp.symm
    rw [List.pairwise_map] at hs
    exact ⟨sorted', ⟨hp', hs⟩, rfl⟩
  · rintro ⟨sorted', ⟨hp, hs⟩, rfl⟩
    exact ⟨hp.map f, List.pairwise_map.2 hs⟩

/-- **Rows with different keys have one sort.** -/
theorem iff_eq_of_lt [PartialOrder κ] {key : α → κ} {rows l sorted : List α} (hl : l.Perm rows)
    (hlt : l.Pairwise fun a b => key a < key b) : IsSort key rows sorted ↔ sorted = l := by
  constructor
  · rintro ⟨hp, hs⟩
    have hp' : sorted.Perm l := hp.trans hl.symm
    have hkeys : (l.map key).Nodup := List.pairwise_map.2 (hlt.imp ne_of_lt)
    refine List.Perm.eq_of_pairwise (fun a b ha hb hab hba => ?_) hs (hlt.imp le_of_lt) hp'
    exact List.inj_on_of_nodup_map hkeys (hp'.mem_iff.1 ha) hb (le_antisymm hab hba)
  · rintro rfl
    exact ⟨hl, hlt.imp le_of_lt⟩

end IsSort

/-! ## Row numbers -/

namespace View

variable {ρ V : Type} [LinearOrder V] (vw : View ρ V)

/-- **Row numbers without partitions** number some sort of all rows. -/
theorem ranks_rowNumber_nil {keys : List (Key Query)} {rows : List ρ} {nums : List Nat} :
    vw.Ranks ⟨.rowNumber, [], keys⟩ rows nums ↔
      nums.length = rows.length ∧
        ∃ sorted, IsSort (vw.sortKey keys) rows sorted ∧
          (rows.zip nums).Perm (sorted.zipIdx 1) := by
  refine and_congr_right fun _ => ⟨fun h => ?_, ?_⟩
  · obtain ⟨sorted, hs, hn⟩ := h []
    simp only [partKey, List.map_nil, decide_true, List.filter_true] at hs hn
    exact ⟨sorted, hs, hn⟩
  · rintro ⟨sorted, hs, hn⟩ p
    by_cases hp : p = []
    · subst hp
      refine ⟨sorted, ?_, ?_⟩
      · simpa only [partKey, List.map_nil, decide_true, List.filter_true] using hs
      · simpa only [partKey, List.map_nil, decide_true, List.filter_true] using hn
    · have hne : decide (([] : List V) = p) = false := decide_eq_false fun h => hp h.symm
      refine ⟨[], ⟨?_, List.Pairwise.nil⟩, ?_⟩
      · simp only [partKey, List.map_nil, hne, List.filter_false]
        exact List.Perm.refl _
      · simp only [partKey, List.map_nil, hne, List.filter_false]
        exact List.Perm.refl _

/-- The rows with their positions among the rows of their partition; `seen` are the rows before
them. -/
def positions (partition : List (Expr Query)) : List ρ → List ρ → List (ρ × Nat)
  | _, [] => []
  | seen, r :: rows =>
    (r, (seen.filter fun r' => vw.partKey partition r' = vw.partKey partition r).length + 1) ::
      positions partition (r :: seen) rows

theorem map_fst_positions (partition : List (Expr Query)) : ∀ seen rows : List ρ,
    (vw.positions partition seen rows).map Prod.fst = rows
  | _, [] => rfl
  | seen, r :: rows => by rw [positions, List.map_cons, map_fst_positions]

/-- The positions in one partition count on from the rows seen before. -/
theorem filter_positions (partition : List (Expr Query)) (p : List V) : ∀ seen rows : List ρ,
    ((vw.positions partition seen rows).filter fun x => vw.partKey partition x.1 = p) =
      (rows.filter fun r => vw.partKey partition r = p).zipIdx
        ((seen.filter fun r => vw.partKey partition r = p).length + 1)
  | _, [] => rfl
  | seen, r :: rows => by
    rw [positions]
    by_cases hr : vw.partKey partition r = p
    · rw [List.filter_cons_of_pos (by simpa using hr), List.filter_cons_of_pos (by simpa using hr),
        filter_positions partition p (r :: seen) rows, List.zipIdx_cons,
        List.filter_cons_of_pos (by simpa using hr), List.length_cons, hr]
    · rw [List.filter_cons_of_neg (by simpa using hr), List.filter_cons_of_neg (by simpa using hr),
        filter_positions partition p (r :: seen) rows,
        List.filter_cons_of_neg (by simpa using hr)]

/-- **Any sort can be numbered**, partition by partition. -/
theorem exists_ranks_rowNumber (partition : List (Expr Query)) {keys : List (Key Query)}
    {rows sorted : List ρ} (h : IsSort (vw.sortKey keys) rows sorted) :
    ∃ nums, vw.Ranks ⟨.rowNumber, partition, keys⟩ rows nums ∧
      (rows.zip nums).Perm (vw.positions partition [] sorted) := by
  have hp : ((vw.positions partition [] sorted).map Prod.fst).Perm rows := by
    rw [map_fst_positions]
    exact h.1
  obtain ⟨l, hl, hmap⟩ := exists_perm_map_eq Prod.fst hp
  have hlen : (l.map Prod.snd).length = rows.length := by rw [← hmap]; simp
  have hzip : rows.zip (l.map Prod.snd) = l := by
    rw [← hmap]
    exact (List.zip_of_prod rfl rfl).symm
  refine ⟨l.map Prod.snd, ⟨hlen, fun p => ⟨sorted.filter fun r => vw.partKey partition r = p,
    ⟨h.1.filter _, h.2.filter _⟩, ?_⟩⟩, by rw [hzip]; exact hl⟩
  rw [hzip]
  exact (hl.filter _).trans (List.Perm.of_eq (vw.filter_positions partition p [] sorted))

theorem positions_nil (sorted : List ρ) : vw.positions [] [] sorted = sorted.zipIdx 1 := by
  have h := vw.filter_positions [] [] [] sorted
  simpa only [partKey, List.map_nil, decide_true, List.filter_true, List.length_nil] using h

/-! ## Select lists -/

/-- What the items of a select list give together. -/
def listed (es : List (Expr Query)) (r : ρ) : Tuple V := es.flatMap (vw.outputs · r)

/-- **Expressions at the front of a select list** are evaluated row by row. -/
theorem lists_append_exprs {columns : List (Column Query)} {rows : List ρ} :
    ∀ {es : List (Expr Query)} {l : List (ρ × Tuple V)},
      vw.Lists (es.map .expr ++ columns) rows l ↔
        ∃ rest, vw.Lists columns rows rest ∧ l = rest.map fun x => (x.1, vw.listed es x.1 ++ x.2)
  | [], l => by simp [listed]
  | e :: es, l => by
    simp only [List.map_cons, List.cons_append, Lists, lists_append_exprs]
    constructor
    · rintro ⟨_, ⟨rest, hrest, rfl⟩, rfl⟩
      exact ⟨rest, hrest, by simp [listed, Function.comp_def]⟩
    · rintro ⟨rest, hrest, rfl⟩
      exact ⟨_, ⟨rest, hrest, rfl⟩, by simp [listed, Function.comp_def]⟩

/-- A select list of expressions is evaluated row by row. -/
theorem lists_exprs {es : List (Expr Query)} {rows : List ρ} {l : List (ρ × Tuple V)} :
    vw.Lists (es.map .expr) rows l ↔ l = rows.map fun r => (r, vw.listed es r) := by
  rw [← List.append_nil (es.map Column.expr), vw.lists_append_exprs]
  simp [Lists, Function.comp_def]

/-- Ascending by one expression, rows compare as its values do. -/
theorem sortKey_single_le_iff {e : Expr Query} {d : Option Direction} (hd : d ≠ some .desc)
    {r r' : ρ} :
    vw.sortKey [⟨e, d⟩] r ≤ vw.sortKey [⟨e, d⟩] r' ↔ vw.value e r ≤ vw.value e r' := by
  have hkey : ∀ r, vw.sortKey [⟨e, d⟩] r = [Sum.inlₗ (vw.value e r)] := by
    intro r
    rcases d with _ | _ | _
    · rfl
    · rfl
    · exact absurd rfl hd
  rw [hkey, hkey, ← not_lt, ← not_lt, not_iff_not]
  exact (List.lex_singleton_iff _ _).trans Sum.Lex.inl_lt_inl_iff

theorem sortKey_single_lt {e : Expr Query} {d : Option Direction} (hd : d ≠ some .desc) {r r' : ρ}
    (h : vw.value e r < vw.value e r') : vw.sortKey [⟨e, d⟩] r < vw.sortKey [⟨e, d⟩] r' :=
  (lt_iff_lt_of_le_iff_le (vw.sortKey_single_le_iff hd)).2 h

end View

/-! ## Numbered select lists -/

namespace View

variable {ρ V : Type} [LinearOrder V] (vw : View ρ V)

/-- The result of a select list that numbers the rows in its midst. -/
def numberedRow (es : List (Expr Query)) (name : String) (es' : List (Expr Query)) (x : ρ × Nat) :
    Tuple V :=
  vw.listed es x.1 ++ (some name, vw.number x.2) :: vw.listed es' x.1

theorem lists_ranked {w : Window Query} {name : String} {es es' : List (Expr Query)}
    {rows : List ρ} {l : List (ρ × Tuple V)} :
    vw.Lists (es.map .expr ++ .ranked w name :: es'.map .expr) rows l ↔
      ∃ nums, vw.Ranks w rows nums ∧
        l = (rows.zip nums).map fun x => (x.1, vw.numberedRow es name es' x) := by
  have hzip : ∀ (rows : List ρ) (nums : List Nat),
      (List.zipWith (fun n x => (x.1, (some name, vw.number n) :: x.2)) nums
        (rows.map fun r => (r, vw.listed es' r))).map
          (fun x => (x.1, vw.listed es x.1 ++ x.2)) =
        (rows.zip nums).map fun x => (x.1, vw.numberedRow es name es' x) := by
    intro rows nums
    rw [List.zipWith_map_right, List.map_zipWith, List.zipWith_comm, List.zip_eq_zipWith,
      List.map_zipWith]
    rfl
  simp only [lists_append_exprs, Lists, lists_exprs]
  constructor
  · rintro ⟨_, ⟨nums, _, hnums, rfl, rfl⟩, rfl⟩
    exact ⟨nums, hnums, hzip rows nums⟩
  · rintro ⟨nums, hnums, rfl⟩
    exact ⟨_, ⟨nums, _, hnums, rfl, rfl⟩, (hzip rows nums).symm⟩

theorem isSort_nil {rows sorted : List ρ} : IsSort (vw.sortKey []) rows sorted ↔ sorted.Perm rows :=
  ⟨fun h => h.1, fun h => ⟨h, List.pairwise_of_forall fun _ _ => le_refl _⟩⟩

/-- A query with no order and no limit that keeps duplicates gives its list in any order. -/
theorem gives_unordered {count : Expr Query → Nat} {q : QueryBody Query} {rows : List ρ}
    {result : List (Tuple V)} (hdistinct : q.distinct = false) (horders : q.orders = [])
    (htop : q.top = none) :
    vw.Gives count q rows result ↔
      ∃ l, vw.Lists q.columns.flatten rows l ∧ result.Perm (l.map Prod.snd) := by
  constructor
  · rintro ⟨l, kept, s, hl, hk, hs, rfl⟩
    rw [hdistinct] at hk
    obtain rfl : kept = l := hk
    rw [horders, isSort_nil] at hs
    rw [htop]
    exact ⟨kept, hl, hs.map _⟩
  · rintro ⟨l, hl, hresult⟩
    obtain ⟨s, hs, rfl⟩ := exists_perm_map_eq Prod.snd hresult.symm
    refine ⟨l, l, s, hl, ?_, ?_, ?_⟩
    · rw [hdistinct]
      exact rfl
    · rw [horders, isSort_nil]
      exact hs
    · rw [htop]
      rfl

/-- **A query that numbers its rows** gives, in any order, the rows of some sort with their
positions in it. -/
theorem gives_numbered {count : Expr Query → Nat} {q : QueryBody Query} {keys : List (Key Query)}
    {name : String} {es es' : List (Expr Query)} {rows : List ρ} {result : List (Tuple V)}
    (hcolumns : q.columns.flatten =
      es.map .expr ++ .ranked ⟨.rowNumber, [], keys⟩ name :: es'.map .expr)
    (hdistinct : q.distinct = false) (horders : q.orders = []) (htop : q.top = none) :
    vw.Gives count q rows result ↔
      ∃ sorted, IsSort (vw.sortKey keys) rows sorted ∧
        result.Perm ((sorted.zipIdx 1).map (vw.numberedRow es name es')) := by
  have hsnd : ∀ l : List (ρ × Nat),
      (l.map fun x => (x.1, vw.numberedRow es name es' x)).map Prod.snd =
        l.map (vw.numberedRow es name es') := by
    intro l
    rw [List.map_map]
    rfl
  rw [vw.gives_unordered hdistinct horders htop, hcolumns]
  constructor
  · rintro ⟨l, hl, hresult⟩
    obtain ⟨nums, hnums, rfl⟩ := vw.lists_ranked.1 hl
    obtain ⟨-, sorted, hsorted, hzip⟩ := vw.ranks_rowNumber_nil.1 hnums
    rw [hsnd] at hresult
    exact ⟨sorted, hsorted, hresult.trans (hzip.map _)⟩
  · rintro ⟨sorted, hsorted, hresult⟩
    obtain ⟨nums, hnums, hzip⟩ := vw.exists_ranks_rowNumber [] hsorted
    rw [positions_nil] at hzip
    refine ⟨_, vw.lists_ranked.2 ⟨nums, hnums, rfl⟩, ?_⟩
    rw [hsnd]
    exact hresult.trans (hzip.symm.map _)

end View

/-! ## Distinct rows -/

section

variable {ρ V : Type} {distinct : Bool} {rows kept : List (ρ × Tuple V)}

/-- Rows whose results differ are all kept. -/
theorem Keeps.perm (h : Keeps distinct rows kept)
    (hnd : distinct = true → (rows.map fun x => Tuple.values x.2).Nodup) : kept.Perm rows := by
  cases distinct with
  | false =>
    have h : kept = rows := h
    rw [h]
  | true =>
    have hnd := hnd rfl
    obtain ⟨hsub, hkept, hcover⟩ := h
    refine (List.perm_ext_iff_of_nodup (List.Nodup.of_map _ hkept) (List.Nodup.of_map _ hnd)).2
      fun x => ⟨hsub x, fun hx => ?_⟩
    obtain ⟨y, hy, hyx⟩ := hcover x hx
    rwa [← List.inj_on_of_nodup_map hnd (hsub y hy) hx hyx]

/-- Rows whose results differ may all be kept. -/
theorem Keeps.refl (hnd : distinct = true → (rows.map fun x => Tuple.values x.2).Nodup) :
    Keeps distinct rows rows := by
  cases distinct with
  | false => rfl
  | true => exact ⟨fun _ hx => hx, hnd rfl, fun x hx => ⟨x, hx, rfl⟩⟩

end

/-! ## Sorted select lists -/

/-- **A query that sorts by one expression**, over rows that stand for the elements of `l`: it gives
the results of some sort of `l`, as many as its limit says. Duplicates do not matter when there are
none. -/
theorem View.gives_sorted {α ρ V : Type} [LinearOrder V] (vw : View ρ V) {count : Expr Query → Nat}
    {q : QueryBody Query} {es : List (Expr Query)} {e : Expr Query} {d : Option Direction}
    {l : List α} {g : α → ρ} {out : α → Tuple V} {key : α → V} {rows : List ρ}
    {result : List (Tuple V)} (hcolumns : q.columns.flatten = es.map .expr)
    (horders : q.orders = [⟨e, d⟩]) (hd : d ≠ some .desc)
    (hout : ∀ a, vw.listed es (g a) = out a)
    (hkey : ∀ a, vw.withOutput.value e (g a, out a) = key a)
    (hdistinct : q.distinct = true → (l.map fun a => Tuple.values (out a)).Nodup)
    (hrows : rows.Perm (l.map g)) :
    vw.Gives count q rows result ↔
      ∃ sorted, IsSort key l sorted ∧ result = (takeTop (q.top.map count) sorted).map out := by
  -- the rows with their results
  have hlisted : (rows.map fun r => (r, vw.listed es r)).Perm (l.map fun a => (g a, out a)) := by
    simpa only [List.map_map, Function.comp_def, hout] using
      hrows.map fun r => (r, vw.listed es r)
  have hnd : q.distinct = true →
      ((rows.map fun r => (r, vw.listed es r)).map fun x => Tuple.values x.2).Nodup := by
    intro hq
    rw [(hlisted.map _).nodup_iff, List.map_map]
    exact hdistinct hq
  have hsort : ∀ sorted, IsSort (vw.withOutput.sortKey q.orders)
      (rows.map fun r => (r, vw.listed es r)) sorted ↔
        ∃ sorted', IsSort key l sorted' ∧ sorted'.map (fun a => (g a, out a)) = sorted := by
    intro sorted
    rw [IsSort.perm_iff hlisted, IsSort.map_iff, horders]
    refine exists_congr fun sorted' => and_congr_left fun _ => IsSort.key_iff fun a _ b _ => ?_
    rw [View.sortKey_single_le_iff _ hd, hkey, hkey]
  simp only [View.Gives, hcolumns, View.lists_exprs]
  constructor
  · rintro ⟨_, kept, sorted, rfl, hkept, hsorted, rfl⟩
    obtain ⟨sorted', hsorted', rfl⟩ :=
      (hsort sorted).1 ((IsSort.perm_iff (hkept.perm hnd)).1 hsorted)
    refine ⟨sorted', hsorted', ?_⟩
    rw [← map_takeTop, List.map_map]
    rfl
  · rintro ⟨sorted', hsorted', rfl⟩
    refine ⟨_, _, _, rfl, Keeps.refl hnd, (hsort _).2 ⟨sorted', hsorted', rfl⟩, ?_⟩
    rw [← map_takeTop, List.map_map]
    rfl

/-! ## Pages -/

namespace Database

variable {ρ V : Type} [LinearOrder V] (db : Database ρ V)

/-- Names in the list of a query over a derived table show the columns of these names. -/
theorem listed_named (name : String) (t : Tuple V) : ∀ ns : List String,
    (db.derived name).listed (ns.map .named) t =
      ns.map fun n => (some n, (t.get? n).getD (db.otherValue (.named n) t))
  | [] => rfl
  | n :: ns => by
    rw [List.map_cons, View.listed, List.flatMap_cons, ← View.listed, listed_named name t ns]
    rfl

/-- The names of the first columns, when they differ, show these columns. -/
theorem listed_front {outputs : List String} {t : Tuple V}
    (ht : t.map Prod.fst = outputs.map some) (hdiffer : (outputs.map Text.lower).Nodup)
    (name : String) (u : Tuple V) :
    (db.derived name).listed (outputs.map .named) (t ++ u) = t := by
  have hpairwise : t.Pairwise fun a b => a.1.map Text.lower ≠ b.1.map Text.lower := by
    have h : (t.map Prod.fst).Pairwise fun a b => a.map Text.lower ≠ b.map Text.lower := by
      rw [ht, List.pairwise_map]
      exact (List.pairwise_map.1 hdiffer).imp fun hne he => hne (Option.some.inj he)
    rw [List.pairwise_map] at h
    exact h
  have hget : ∀ n ∈ outputs, Tuple.get? (t ++ u) n = t.get? n := fun n hn =>
    Tuple.get?_append_left (Tuple.isSome_get? (by rw [ht]; exact List.mem_map_of_mem hn)) u
  calc (db.derived name).listed (outputs.map .named) (t ++ u)
      = outputs.map fun n =>
          (some n, (Tuple.get? (t ++ u) n).getD (db.otherValue (.named n) (t ++ u))) :=
        db.listed_named name (t ++ u) outputs
    _ = outputs.map fun n => (some n, (t.get? n).getD (db.otherValue (.named n) (t ++ u))) :=
        List.map_congr_left fun n hn => by rw [hget n hn]
    _ = t.resolved := (Tuple.resolved_eq ht _).symm
    _ = t := Tuple.resolved_of_pairwise hpairwise

theorem page_gives {α : Type} {name : String} {q : QueryBody Query} {es : List (Expr Query)}
    {col bound : Expr Query} {d : Option Direction} {m : Nat} {f out : α × Nat → Tuple V}
    {sorted : List α} {rows result : List (Tuple V)}
    (hcolumns : q.columns.flatten = es.map .expr) (hfilters : q.filters = [.binary col .gt bound])
    (horders : q.orders = [⟨col, d⟩]) (hd : d ≠ some .desc)
    (hbound : ∀ t, db.derivedValue name t bound = db.int m)
    (hcol : ∀ x, db.derivedValue name (f x) col = db.int x.2)
    (hout : ∀ x, (db.derived name).listed es (f x) = out x)
    (hkey : ∀ x, (db.derived name).withOutput.value col (f x, out x) = db.int x.2)
    (hdistinct : ∀ x y, q.distinct = true → Tuple.values (out x) = Tuple.values (out y) → x.2 = y.2)
    (hrows : rows.Perm ((sorted.zipIdx 1).map f)) :
    (db.derived name).Gives db.rowCount q
        (rows.filter fun t => q.filters.all (db.meets name t)) result ↔
      result = (takeTop (q.top.map db.rowCount) ((sorted.zipIdx 1).drop m)).map out := by
  have hmeets : ∀ x, (q.filters.all (db.meets name (f x))) = decide (0 + m < x.2) := by
    intro x
    simp only [hfilters, List.all_cons, List.all_nil, Bool.and_true, meets, hcol, hbound,
      db.isNull_int, Bool.not_false, Bool.true_and, db.int.lt_iff_lt, Int.ofNat_lt, Nat.zero_add]
  have hkept : (rows.filter fun t => q.filters.all (db.meets name t)).Perm
      (((sorted.zipIdx 1).drop m).map f) := by
    refine (hrows.filter _).trans ?_
    rw [List.filter_map, ← filter_zipIdx sorted 0 m]
    exact List.Perm.of_eq (congrArg _ (List.filter_congr fun x _ => hmeets x))
  have hlt : ((sorted.zipIdx 1).drop m).Pairwise fun x y => x.2 < y.2 :=
    (pairwise_zipIdx sorted 1).sublist (List.drop_sublist _ _)
  have hnd : q.distinct = true →
      (((sorted.zipIdx 1).drop m).map fun x => Tuple.values (out x)).Nodup := by
    intro hq
    refine List.pairwise_map.2 (hlt.imp fun {x y} hxy he => ?_)
    have := hdistinct x y hq he
    omega
  rw [View.gives_sorted _ hcolumns horders hd hout hkey hnd hkept]
  -- the numbers differ, so there is one sort
  have hsort : ∀ s, IsSort (fun x : α × Nat => db.int x.2) ((sorted.zipIdx 1).drop m) s ↔
      s = (sorted.zipIdx 1).drop m := fun s =>
    IsSort.iff_eq_of_lt (List.Perm.refl _)
      (hlt.imp fun hxy => db.int.lt_iff_lt.2 (Int.ofNat_lt.2 hxy))
  simp only [hsort, exists_eq_left]

/-- **A page**: a query over numbered rows that keeps those whose number is past `m` and sorts by
the number gives the rows from `m + 1` on, as many as its limit says. The numbered rows stand in any
order; `Sorted` says along which lists they may be numbered. -/
theorem yields_page {α : Type} {name : String} {q : QueryBody Query} {inner : Query}
    {es : List (Expr Query)} {col bound : Expr Query} {d : Option Direction} {m : Nat}
    {f out : α × Nat → Tuple V} {Sorted : List α → Prop} {result : List (Tuple V)}
    (hq : q.rows = some (.derived inner name) ∧ q.groups = [] ∧ q.having = none)
    (hcolumns : q.columns.flatten = es.map .expr)
    (hlist : ∀ column ∈ es.map Column.expr, column.IsReference)
    (hfilters : q.filters = [.binary col .gt bound])
    (horders : q.orders = [⟨col, d⟩]) (hd : d ≠ some .desc)
    (hbound : ∀ t, db.derivedValue name t bound = db.int m)
    (hcol : ∀ x, db.derivedValue name (f x) col = db.int x.2)
    (hout : ∀ x, (db.derived name).listed es (f x) = out x)
    (hkey : ∀ x, (db.derived name).withOutput.value col (f x, out x) = db.int x.2)
    (hdistinct : ∀ x y, q.distinct = true → Tuple.values (out x) = Tuple.values (out y) → x.2 = y.2)
    (hinner : ∀ rows, db.Yields inner rows ↔
      ∃ sorted, Sorted sorted ∧ rows.Perm ((sorted.zipIdx 1).map f)) :
    db.Yields (.of q) result ↔
      ∃ sorted, Sorted sorted ∧
        result = (takeTop (q.top.map db.rowCount) ((sorted.zipIdx 1).drop m)).map out := by
  obtain ⟨hrows, hgroups, hhaving⟩ := hq
  rw [yields_derived_iff hrows hgroups hhaving (by rw [hcolumns]; exact hlist)]
  have hpage : ∀ {sorted : List α} {rows : List (Tuple V)},
      rows.Perm ((sorted.zipIdx 1).map f) →
      ((db.derived name).Gives db.rowCount q
          (rows.filter fun t => q.filters.all (db.meets name t)) result ↔
        result = (takeTop (q.top.map db.rowCount) ((sorted.zipIdx 1).drop m)).map out) :=
    db.page_gives hcolumns hfilters horders hd hbound hcol hout hkey hdistinct
  constructor
  · rintro ⟨rows, hyields, hgives⟩
    obtain ⟨sorted, hsorted, hperm⟩ := (hinner rows).1 hyields
    exact ⟨sorted, hsorted, (hpage hperm).1 hgives⟩
  · rintro ⟨sorted, hsorted, hresult⟩
    exact ⟨_, (hinner _).2 ⟨sorted, hsorted, List.Perm.refl _⟩,
      (hpage (List.Perm.refl _)).2 hresult⟩

end Database

end Transact
