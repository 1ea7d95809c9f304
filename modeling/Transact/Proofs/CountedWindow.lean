import Mathlib.Data.Int.Interval
import Mathlib.Data.Set.Card
import Transact.Proofs.Plan.Builds

/-!
# Counts of limited rows

The count of a limited select numbers the rows up to limit plus offset and counts those past the
offset. The sum stays in the range of integers, so that it may be less than it should be. Main
statement: `Select.counts_window`. What is counted are the positions past the offset and up to the
exact sum all the same.

* `Database.Counts`: what a count over numbered rows sees and counts.
* `View.gives_byNumber`: the first rows by number are the first ones of the sort that is numbered.
* `Number.toInt_saturatingAdd`: a sum of row counts is exact or the greatest integer.
-/

set_option autoImplicit false

namespace Transact

/-! ## Reading a count -/

/-- The query sorted by the column of this name instead. -/
def QueryBody.byNumber (q : QueryBody Query) (number : String) : QueryBody Query :=
  { q with orders := [⟨.named number, some .asc⟩] }

/-- **The query may see these rows and count so many of them.** It counts the rows of a derived
table that meet its conditions and for which the argument is not null. The first column of the
derived table numbers its rows, and `TOP` keeps those with the lowest numbers. -/
inductive Database.Counts {ρ V : Type} [LinearOrder V] (db : Database ρ V) :
    Query → List (Tuple V) → Nat → Prop
  | of {outer inner : QueryBody Query} {name number label : String} {window : Window Query}
      {columns : List (Column Query)} {arg : Expr Query} {rows seen : List (Tuple V)} :
      outer.rows = some (.derived (.of inner) name) →
      outer.columns = [[.expr (.alias (.countOf [arg]) label)]] → outer.groups = [] →
      outer.having = none → outer.top = none →
      (∀ q name, inner.rows ≠ some (.derived q name)) →
      inner.columns.flatten = .ranked window number :: columns →
      db.source.Gives db.rowCount (inner.byNumber number) (db.rows inner.frame) rows →
      seen = (rows.filter fun t => outer.filters.all (db.meets name t)) →
      Counts db (.of outer) seen
        (seen.filter fun t => !db.isNull (db.derivedValue name t arg)).length

/-- A query of this form is read in one way. -/
theorem Database.counts_iff {ρ V : Type} [LinearOrder V] (db : Database ρ V)
    {outer inner : QueryBody Query} {name number label : String} {window : Window Query}
    {columns : List (Column Query)} {arg : Expr Query} {seen : List (Tuple V)} {count : Nat}
    (hrows : outer.rows = some (.derived (.of inner) name))
    (hlist : outer.columns = [[.expr (.alias (.countOf [arg]) label)]])
    (hrest : outer.groups = [] ∧ outer.having = none ∧ outer.top = none)
    (hsource : ∀ q name, inner.rows ≠ some (.derived q name))
    (hcolumns : inner.columns.flatten = .ranked window number :: columns) :
    db.Counts (.of outer) seen count ↔
      ∃ rows, db.source.Gives db.rowCount (inner.byNumber number) (db.rows inner.frame) rows ∧
        seen = (rows.filter fun t => outer.filters.all (db.meets name t)) ∧
        count = (seen.filter fun t => !db.isNull (db.derivedValue name t arg)).length := by
  constructor
  · rintro ⟨hrows', hlist', -, -, -, -, hcolumns', hgives, hseen⟩
    obtain ⟨rfl, rfl⟩ : inner = _ ∧ name = _ := by simpa using hrows.symm.trans hrows'
    obtain ⟨rfl, -⟩ : arg = _ ∧ label = _ := by
      simpa [Expr.countOf] using hlist.symm.trans hlist'
    obtain ⟨⟨-, rfl⟩, -⟩ : (window = _ ∧ number = _) ∧ columns = _ := by
      simpa using hcolumns.symm.trans hcolumns'
    exact ⟨_, hgives, hseen, rfl⟩
  · rintro ⟨rows, hgives, hseen, rfl⟩
    exact .of hrows hlist hrest.1 hrest.2.1 hrest.2.2 hsource hcolumns hgives hseen

/-! ## The first rows by number -/

theorem take_zipIdx {α : Type} : ∀ (l : List α) (start k : Nat),
    (l.zipIdx start).take k = (l.take k).zipIdx start
  | [], _, _ => by simp
  | _ :: _, _, 0 => by simp
  | a :: l, start, k + 1 => by simp [take_zipIdx l]

/-- Of the first `k` rows those are left that come after the first `m`. -/
theorem length_filter_take_zipIdx {α : Type} (l : List α) (k m : Nat) :
    (((l.zipIdx 1).take k).filter fun x => m < x.2).length = min k l.length - m := by
  have hdrop := filter_zipIdx (l.take k) 0 m
  simp only [Nat.zero_add] at hdrop
  rw [take_zipIdx, hdrop, List.length_drop, List.length_zipIdx, List.length_take]

/-- **The first rows by number** are the first ones of some sort. -/
theorem View.gives_byNumber {ρ V : Type} [LinearOrder V] (vw : View ρ V)
    (hnumber : StrictMono vw.number) {count : Expr Query → Nat} {q : QueryBody Query}
    {keys : List (Key Query)} {name : String} {es : List (Expr Query)} {rows : List ρ}
    {result : List (Tuple V)} (hdistinct : q.distinct = false)
    (hcolumns : q.columns.flatten = .ranked ⟨.rowNumber, [], keys⟩ name :: es.map .expr) :
    vw.Gives count (q.byNumber name) rows result ↔
      ∃ sorted, IsSort (vw.sortKey keys) rows sorted ∧
        result = (takeTop (q.top.map count) (sorted.zipIdx 1)).map
          (vw.numberedRow [] name es) := by
  have hvalue : ∀ x : ρ × Nat,
      vw.withOutput.value (.named name) (x.1, vw.numberedRow [] name es x) = vw.number x.2 := by
    intro x
    simp [withOutput, Expr.named, numberedRow, listed, Tuple.get?_cons_self]
  -- the numbers differ, so there is one sort by them
  have hsort : ∀ {sorted : List ρ} {listed : List (ρ × Tuple V)} (s : List (ρ × Tuple V)),
      listed.Perm ((sorted.zipIdx 1).map fun x => (x.1, vw.numberedRow [] name es x)) →
      (IsSort (vw.withOutput.sortKey (q.byNumber name).orders) listed s ↔
        s = (sorted.zipIdx 1).map fun x => (x.1, vw.numberedRow [] name es x)) := by
    intro sorted listed s hperm
    refine IsSort.iff_eq_of_lt hperm.symm (List.pairwise_map.2 ?_)
    refine (pairwise_zipIdx sorted 1).imp fun {x y} hxy => ?_
    apply View.sortKey_single_lt _ (by decide)
    rw [hvalue, hvalue]
    exact hnumber hxy
  have hresult : ∀ sorted : List ρ,
      (takeTop (q.top.map count)
        ((sorted.zipIdx 1).map fun x => (x.1, vw.numberedRow [] name es x))).map Prod.snd =
      (takeTop (q.top.map count) (sorted.zipIdx 1)).map (vw.numberedRow [] name es) := by
    intro sorted
    rw [← map_takeTop, List.map_map]
    rfl
  have hlist : (q.byNumber name).columns.flatten =
      ([] : List (Expr Query)).map .expr ++ .ranked ⟨.rowNumber, [], keys⟩ name :: es.map .expr :=
    hcolumns
  have hdistinct : (q.byNumber name).distinct = false := hdistinct
  constructor
  · rintro ⟨listed, kept, s, hlisted, hkept, hs, rfl⟩
    rw [hdistinct] at hkept
    obtain rfl : kept = listed := hkept
    rw [hlist] at hlisted
    obtain ⟨nums, hnums, rfl⟩ := vw.lists_ranked.1 hlisted
    obtain ⟨-, sorted, hsorted, hzip⟩ := vw.ranks_rowNumber_nil.1 hnums
    rw [(hsort s (hzip.map _)).1 hs]
    exact ⟨sorted, hsorted, hresult sorted⟩
  · rintro ⟨sorted, hsorted, rfl⟩
    obtain ⟨nums, hnums, hzip⟩ := vw.exists_ranks_rowNumber [] hsorted
    rw [positions_nil] at hzip
    refine ⟨(rows.zip nums).map fun x => (x.1, vw.numberedRow [] name es x), _, _, ?_, ?_,
      (hsort _ (hzip.map _)).2 rfl, (hresult sorted).symm⟩
    · rw [hlist]
      exact vw.lists_ranked.2 ⟨nums, hnums, rfl⟩
    · rw [hdistinct]
      rfl

/-! ## Row counts -/

/-- A sum of row counts is exact or the greatest integer. -/
theorem Number.toInt_saturatingAdd {a b : Int64} (ha : 0 ≤ a) (hb : 0 ≤ b) :
    (saturatingAdd a b).toInt = min maxInt64 (a.toInt + b.toInt) := by
  have ha : 0 ≤ a.toInt := Int64.le_iff_toInt_le.1 ha
  have hb : 0 ≤ b.toInt := Int64.le_iff_toInt_le.1 hb
  -- the clamped sum is in the range
  rw [saturatingAdd, clamp, Int64.toInt_ofInt_of_le]
  all_goals
    simp only [minInt64, maxInt64]
    omega

/-- The positions past `m` and up to `m + n` among the first `N`. -/
def windowPositions (m n : Int) (N : Nat) : Set Int := {p | m < p ∧ p ≤ m + n ∧ p ≤ N}

theorem ncard_windowPositions (m n : Int) (N : Nat) :
    (windowPositions m n N).ncard = (min (m + n) N - m).toNat := by
  have hpositions : windowPositions m n N = ↑(Finset.Ioc m (min (m + n) N)) := by
    ext p
    simp only [windowPositions, Set.mem_ofPred_eq, Finset.coe_Ioc, Set.mem_Ioc, le_min_iff]
  rw [hpositions, Set.ncard_coe_finset, Int.card_Ioc]

namespace SelectBody

variable {σ : Type} {s : SelectBody σ} {n : Int64} {offset : Option Int64}

/-- How many rows are numbered for a count: the limit, with the offset added if there is one. -/
theorem countLimit?_eq (hlimit : s.limit = some (.int n)) (hoffset : s.offset = offset.map .int) :
    s.countLimit? = some (.int (offset.elim n (Number.saturatingAdd n))) := by
  rw [countLimit?, hlimit, hoffset]
  cases offset <;> rfl

end SelectBody

/-- **The numbered rows suffice**: where the sum of limit and offset leaves the range, all rows are
numbered. -/
theorem min_countLimit {n : Int64} {offset : Option Int64} (hn : 0 ≤ n) (hm : 0 ≤ offset.getD 0)
    {N : Nat} (hN : (N : Int) ≤ Number.maxInt64) :
    min (offset.elim n (Number.saturatingAdd n)).toInt.toNat N - (offset.getD 0).toInt.toNat =
      (windowPositions (offset.getD 0).toInt n.toInt N).ncard := by
  have hn' : 0 ≤ n.toInt := Int64.le_iff_toInt_le.1 hn
  have hm' : 0 ≤ (offset.getD 0).toInt := Int64.le_iff_toInt_le.1 hm
  rw [ncard_windowPositions]
  cases offset with
  | none =>
    simp only [Option.elim_none, Option.getD_none, Int64.toInt_zero]
    omega
  | some m =>
    simp only [Option.elim_some, Option.getD_some] at hm hm' ⊢
    rw [Number.toInt_saturatingAdd hn hm]
    omega

/-! ## The rows that are counted -/

namespace Database

variable {ρ V : Type} [LinearOrder V] (db : Database ρ V) {names : SyntheticNames}
  {es : List (Expr Query)}

/-- A numbered row is past the offset when its number is. -/
theorem all_meets_pastOffset {offset : Option Int64} (hm : 0 ≤ offset.getD 0) (x : ρ × Nat)
    (hx : 0 < x.2) :
    (names.pastOffset (offset.map .int)).all
        (db.meets names.numbered (db.source.numberedRow [] names.rowNumber es x)) =
      decide ((offset.getD 0).toInt.toNat < x.2) := by
  cases offset with
  | none => simp [SyntheticNames.pastOffset, hx]
  | some m =>
    have hnumber := db.derivedValue_rowNumber names es x
    have hbound := db.derivedValue_offset names.numbered (m := m) hm
    simp only [SyntheticNames.pastOffset, Option.map_some, Option.toList_some, List.map_cons,
      List.map_nil, List.all_cons, List.all_nil, Bool.and_true, meets, hnumber, hbound,
      db.isNull_int, Bool.not_false, Bool.true_and, db.int.lt_iff_lt, Int.ofNat_lt,
      Option.getD_some]

/-- A row of the derived table of a count. -/
def countedRow (names : SyntheticNames) (x : ρ × Nat) : Tuple V :=
  db.source.numberedRow [] names.rowNumber [.alias (.int 1) names.count] x

/-- A counted row is not null when the constant that stands for it is not. -/
theorem isNull_counted (hone : ∀ r, db.value (.int 1) r = db.int 1) (x : ρ × Nat) :
    db.isNull (db.derivedValue names.numbered (db.countedRow names x) (.named names.count)) =
      false := by
  have hrow : db.countedRow names x =
      [(some names.rowNumber, db.int x.2), (some names.count, db.int 1)] := by
    simp [countedRow, View.numberedRow, View.listed, View.outputs, source, hone]
  -- a number is not null either, should the two columns have one name
  simp only [hrow, derivedValue, Expr.named, Option.all_none, if_true, Tuple.get?_cons]
  split
  · exact db.isNull_int _
  · simp [db.isNull_int]

variable {σ : Type} {sc : Scope σ} {s : SelectBody σ} {c : Core σ} {q : Query} {n : Int64}
  {offset : Option Int64}

/-- **One level of a count** sees the rows of some sort that are numbered and past the offset. -/
theorem counts_count (hlimit : s.limit = some (.int n)) (hoffset : s.offset = offset.map .int)
    (hm : 0 ≤ offset.getD 0) (h : (sc.count s c).result = .ok q) :
    ∃ (keys : List (Key Query)) (frame : QueryBody Query),
      (sc.keys (pageKeys s.orders c.baseTable?)).result = .ok keys ∧
      (sc.frame s c c.groups).result = .ok frame ∧
      ∀ seen count, db.Counts q seen count ↔
        ∃ sorted, IsSort (db.source.sortKey keys) (db.rows frame) sorted ∧
          seen = (((sorted.zipIdx 1).take
            (offset.elim n (Number.saturatingAdd n)).toInt.toNat).filter
              fun x => (offset.getD 0).toInt.toNat < x.2).map (db.countedRow sc.names) ∧
          count = (seen.filter fun t =>
            !db.isNull (db.derivedValue sc.names.numbered t (.named sc.names.count))).length := by
  obtain ⟨top, bound, window, frame, orders, htop, hwindow, hframe, -, hbound, rfl⟩ :=
    Scope.count_builds h
  obtain ⟨ps, keys, hps, hkeys, rfl⟩ := Scope.window_eq_ok.1 hwindow
  obtain _ | _ := Scope.exprs_eq_ok.1 hps
  refine ⟨keys, frame, hkeys, hframe, fun seen count => ?_⟩
  rw [SelectBody.countLimit?_eq hlimit hoffset] at htop
  obtain rfl := Scope.expr?_int_eq_ok (i := some _).1 htop
  rw [hoffset] at hbound
  obtain rfl := Scope.expr?_int_eq_ok.1 hbound
  obtain ⟨rows, filters, groups, having, hrows, -, -, -, rfl⟩ := Scope.frame_eq_ok.1 hframe
  rw [db.counts_iff rfl rfl ⟨rfl, rfl, rfl⟩ (Scope.rows_ne_derived hrows) rfl]
  -- numbers start at one, so that without an offset no row is left out
  have hfilter : ∀ (sorted : List ρ) (k : Nat),
      (((sorted.zipIdx 1).take k).map (db.countedRow sc.names)).filter
          (fun t => (sc.names.pastOffset (offset.map .int)).all (db.meets sc.names.numbered t)) =
        (((sorted.zipIdx 1).take k).filter fun x => (offset.getD 0).toInt.toNat < x.2).map
          (db.countedRow sc.names) := by
    intro sorted k
    rw [List.filter_map]
    refine congrArg _ (List.filter_congr fun x hx => ?_)
    exact db.all_meets_pastOffset hm x (List.le_snd_of_mem_zipIdx (List.mem_of_mem_take hx))
  have hnumber : StrictMono db.source.number := fun a b hab =>
    db.int.lt_iff_lt.2 (Int.ofNat_lt.2 hab)
  have hcolumns : [[Column.ranked ⟨.rowNumber, [], keys⟩ sc.names.rowNumber,
      .expr (.alias (.int 1) sc.names.count)]].flatten =
        .ranked ⟨.rowNumber, [], keys⟩ sc.names.rowNumber ::
          [Expr.alias (.int 1) sc.names.count].map .expr := rfl
  constructor
  · rintro ⟨rows, hgives, rfl, rfl⟩
    obtain ⟨sorted, hsorted, rfl⟩ := (db.source.gives_byNumber hnumber rfl hcolumns).1 hgives
    exact ⟨sorted, hsorted, hfilter sorted _, rfl⟩
  · rintro ⟨sorted, hsorted, rfl, rfl⟩
    exact ⟨_, (db.source.gives_byNumber hnumber rfl hcolumns).2 ⟨sorted, hsorted, rfl⟩,
      (hfilter sorted _).symm, rfl⟩

end Database

/-- **A count counts the requested positions.** A select of a limited count has a text, and whatever
the rows of its first core are, as long as there are no more of them than integers can number, it
sees one row for each position past the offset and up to the exact sum of offset and limit. It
counts every row that it sees when the constant one is not null. -/
theorem Select.counts_window {ρ V : Type} [LinearOrder V] (db : Database ρ V) {options : Options}
    {s : Select} {c : Core Select} {n : Int64} {offset : Option Int64} {q : Query}
    (hq : (s.compile options).result = .ok q) (hstrategy : s.strategy? options = some .count)
    (hc : s.body.cores.head? = some c) (hlimit : s.body.limit = some (.int n)) (hn : 0 ≤ n)
    (hoffset : s.body.offset = offset.map .int) (hm : 0 ≤ offset.getD 0) :
    Statement.sql options (.select s) = .ok (q.sql options.collation) ∧
    ∃ frame, ((s.scope options).frame (s.level options) (c.map (compiled options))
        (c.map (compiled options)).groups).result = .ok frame ∧
      ((db.rows frame).length ≤ Number.maxInt64 →
        (∃ seen count, db.Counts q seen count) ∧
        ∀ seen count, db.Counts q seen count →
          seen.length =
            (windowPositions (offset.getD 0).toInt n.toInt (db.rows frame).length).ncard ∧
          ((∀ r, db.value (.int 1) r = db.int 1) → count = seen.length)) := by
  refine ⟨Select.sql_eq hq, ?_⟩
  obtain ⟨orders, horders, hshape, hcore⟩ := Select.compile_eq_ok hc hq
  have hcount := Scope.core_eq_ok hcore
  rw [hshape hstrategy] at hcount
  have hlimit := Select.level_int options (show _ = (some n).map Expr.int from hlimit)
  have hoffset := Select.level_int options hoffset
  obtain ⟨keys, frame, -, hframe, hcounts⟩ := db.counts_count hlimit hoffset hm hcount
  refine ⟨frame, hframe, fun hN => ⟨?_, fun seen count hcounted => ?_⟩⟩
  · obtain ⟨sorted, hsorted⟩ := IsSort.exists_sort (db.source.sortKey keys) (db.rows frame)
    exact ⟨_, _, (hcounts _ _).2 ⟨sorted, hsorted, rfl, rfl⟩⟩
  · obtain ⟨sorted, hsorted, rfl, rfl⟩ := (hcounts seen count).1 hcounted
    constructor
    · rw [List.length_map, length_filter_take_zipIdx, hsorted.1.length_eq, min_countLimit hn hm hN]
    · intro hone
      rw [List.filter_eq_self.2]
      intro t ht
      obtain ⟨x, -, rfl⟩ := List.mem_map.1 ht
      rw [db.isNull_counted hone]
      rfl

/-- Three rows, each of which is a number; in all of them an integer stands for itself. -/
def threeLiteralNumbers : Database Int Int :=
  { threeNumbers with
    value := fun e r =>
      match e with
      | .literal (.integer i) => i.toInt
      | _ => r }

/-- A count of all rows after the first. The sum of limit and offset is past the greatest
integer. -/
def countAfterFirst : Select :=
  .of
    { cores := [{ projections := [.countOf []], source := some (.table { name := "t" }) }]
      limit := some (.int unboundedLimit)
      offset := some (.int 1) }

theorem Select.counts_window_countAfterFirst :
    ∃ q, (countAfterFirst.compile {}).result = .ok q ∧
      countAfterFirst.strategy? {} = some .count ∧
      (∃ seen count, threeLiteralNumbers.Counts q seen count) ∧
      ∀ seen count, threeLiteralNumbers.Counts q seen count → seen.length = 2 ∧ count = 2 := by
  refine ⟨_, rfl, rfl, ?_⟩
  obtain ⟨-, frame, -, hcounts⟩ := Select.counts_window threeLiteralNumbers (s := countAfterFirst)
    rfl rfl rfl rfl (by decide) (show _ = (some 1).map Expr.int from rfl) (by decide)
  have hrows : (threeLiteralNumbers.rows frame).length = 3 := rfl
  rw [hrows] at hcounts
  obtain ⟨hexists, hall⟩ := hcounts (by decide)
  refine ⟨hexists, fun seen count hcounted => ?_⟩
  obtain ⟨hseen, hcount⟩ := hall seen count hcounted
  rw [ncard_windowPositions] at hseen
  have hlength : seen.length = 2 := hseen.trans (by decide)
  exact ⟨hlength, (hcount fun _ => rfl).trans hlength⟩

end Transact
