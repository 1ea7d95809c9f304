import Mathlib.Data.Finset.Card
import Mathlib.Data.List.Lex
import Mathlib.Data.Sum.Order
import Mathlib.Order.Hom.Basic
import Transact.Query.Basic
import Transact.Text.Lower

/-!
# What queries return

`Database.Yields db q result`: on the database `db`, the query `q` may return the rows `result`. It
is a relation, since ties of an order may be broken either way. A query over a source draws its rows
from the database, which evaluates `FROM`, `WHERE`, `GROUP BY` and `HAVING`; a query over a derived
table draws them from what the inner query yields. From the rows on, both are read alike
(`View.Gives`): rankings are assigned, the select list is evaluated, duplicates go when `DISTINCT`
asks for it, the rest is sorted, and `TOP` cuts it off.
-/

set_option autoImplicit false

namespace Transact

/-! ## Rows of a result -/

/-- A row of a result: its values from left to right, each under its name if it has one. -/
abbrev Tuple (V : Type) := List (Option String × V)

namespace Tuple

variable {V : Type}

/-- The value of the column of this name, whatever the case of its letters. A name that several
columns have stands for the first of them. -/
def get? (t : Tuple V) (name : String) : Option V :=
  (t.find? fun column => column.1.map Text.lower == some (Text.lower name)).map Prod.snd

/-- The values without their names. -/
def values (t : Tuple V) : List V := t.map Prod.snd

theorem values_append (t u : Tuple V) : values (t ++ u) = values t ++ values u := List.map_append

/-- The row as it is seen through the names of its columns: a name that several columns have shows
the value of the first of them each time. -/
def resolved (t : Tuple V) : Tuple V := t.map fun c => (c.1, (c.1.bind t.get?).getD c.2)

theorem get?_cons (name : Option String) (v : V) (t : Tuple V) (n : String) :
    get? ((name, v) :: t) n =
      if name.map Text.lower = some (Text.lower n) then some v else get? t n := by
  by_cases h : name.map Text.lower = some (Text.lower n)
  · simp [get?, h]
  · rw [if_neg h, get?, List.find?_cons_of_neg (by simpa using h), get?]

theorem get?_cons_self (n : String) (v : V) (t : Tuple V) : get? ((some n, v) :: t) n = some v := by
  rw [get?_cons, Option.map_some, if_pos rfl]

theorem get?_cons_ne {name n : String} (h : Text.lower name ≠ Text.lower n) (v : V) (t : Tuple V) :
    get? ((some name, v) :: t) n = get? t n := by
  rw [get?_cons, if_neg (by simpa using h)]

theorem isSome_get? : ∀ {t : Tuple V} {n : String}, some n ∈ t.map Prod.fst → (t.get? n).isSome
  | [], _, h => by simp at h
  | (name, v) :: t, n, h => by
    rw [get?_cons]
    split
    · rfl
    · rename_i hne
      rcases List.mem_cons.1 h with h | h
      · exact absurd (congrArg (Option.map Text.lower) h.symm) hne
      · exact isSome_get? h

/-- A name among the first columns stands for one of them. -/
theorem get?_append_left {t : Tuple V} {n : String} (h : (t.get? n).isSome) (u : Tuple V) :
    get? (t ++ u) n = t.get? n := by
  rw [get?, Option.isSome_map, List.find?_isSome] at h
  rw [get?, get?, List.find?_append, Option.or_of_isSome (List.find?_isSome.2 h)]

/-- A name that no first column has stands for one of the others. -/
theorem get?_append_right {t : Tuple V} {names : List String} (ht : t.map Prod.fst = names.map some)
    {n : String} (h : ∀ name ∈ names, Text.lower name ≠ Text.lower n) (u : Tuple V) :
    get? (t ++ u) n = get? u n := by
  have hnone : t.find? (fun column => column.1.map Text.lower == some (Text.lower n)) = none := by
    refine List.find?_eq_none.2 fun c hc => ?_
    obtain ⟨name, hname, hc⟩ := List.mem_map.1 (ht ▸ List.mem_map_of_mem hc : c.1 ∈ names.map some)
    simpa [← hc] using h name hname
  rw [get?, get?, List.find?_append, hnone, Option.none_or]

/-- A row whose columns all have names is seen name by name. -/
theorem resolved_eq {t : Tuple V} {names : List String} (h : t.map Prod.fst = names.map some)
    (other : String → V) :
    t.resolved = names.map fun n => (some n, (t.get? n).getD (other n)) := by
  have hpart : ∀ (u : Tuple V) (ns : List String), u.map Prod.fst = ns.map some → ns ⊆ names →
      (u.map fun c => (c.1, (c.1.bind t.get?).getD c.2)) =
        ns.map fun n => (some n, (t.get? n).getD (other n)) := by
    intro u
    induction u with
    | nil =>
      intro ns hns _
      rw [List.map_eq_nil_iff.1 hns.symm]
      rfl
    | cons c u ih =>
      intro ns hns hsub
      obtain ⟨n, ns, rfl, hn, hu⟩ := List.map_eq_cons_iff.1 hns.symm
      obtain ⟨hmem, hsub⟩ := List.cons_subset.1 hsub
      obtain ⟨v, hv⟩ := Option.isSome_iff_exists.1
        (isSome_get? (h ▸ List.mem_map_of_mem hmem : some n ∈ t.map Prod.fst))
      rw [List.map_cons, List.map_cons, ih ns hu.symm hsub, ← hn, Option.bind_some, hv]
      rfl
  exact hpart t names h (List.Subset.refl _)

/-- A row whose columns have different names is seen as it is. -/
theorem resolved_of_pairwise {t : Tuple V}
    (h : t.Pairwise fun a b => a.1.map Text.lower ≠ b.1.map Text.lower) : t.resolved = t := by
  have hget : ∀ c ∈ t, ∀ n, c.1 = some n → t.get? n = some c.2 := by
    induction t with
    | nil =>
      intro c hc
      simp at hc
    | cons b t ih =>
      obtain ⟨hb, ht⟩ := List.pairwise_cons.1 h
      intro c hc n hn
      rw [get?_cons]
      rcases List.mem_cons.1 hc with rfl | hc
      · rw [if_pos (by rw [hn]; rfl)]
      · rw [if_neg fun he => hb c hc (by rw [he, hn]; rfl)]
        exact ih ht c hc n hn
  refine (List.map_congr_left fun c hc => ?_).trans (List.map_id t)
  obtain ⟨_ | n, v⟩ := c
  · rfl
  · rw [Option.bind_some, hget _ hc n rfl]
    rfl

end Tuple

/-! ## Sorting -/

/-- `sorted` has the same rows in an order of ascending keys; rows with one key stand in any
order. -/
def IsSort {α κ : Type} [LE κ] (key : α → κ) (rows sorted : List α) : Prop :=
  sorted.Perm rows ∧ sorted.Pairwise fun a b => key a ≤ key b

/-- How expressions are evaluated in rows of type `ρ`. -/
structure View (ρ V : Type) where
  value : Expr Query → ρ → V
  /-- the columns of `*`, or of all columns of a table -/
  whole : Option String → ρ → Tuple V
  /-- the value that a rank has -/
  number : Nat → V

namespace View

variable {ρ V : Type} [LinearOrder V] (vw : View ρ V)

/-- What rows are sorted by: the values of the keys, compared from left to right, those of a
descending key in the opposite order. -/
def sortKey (keys : List (Key Query)) (r : ρ) : List (V ⊕ₗ Vᵒᵈ) :=
  keys.map fun k =>
    match k.direction with
    | some .desc => Sum.inrₗ (OrderDual.toDual (vw.value k.expr r))
    | _ => Sum.inlₗ (vw.value k.expr r)

/-- What the rows of one partition have in common. -/
def partKey (partition : List (Expr Query)) (r : ρ) : List V := partition.map (vw.value · r)

/-! ## Rankings -/

/-- The rows of the partition of `r`. -/
def peers (w : Window Query) (rows : List ρ) (r : ρ) : List ρ :=
  rows.filter fun r' => vw.partKey w.partition r' = vw.partKey w.partition r

/-- One more than the number of different sort keys in the partition that come before that of
`r`. -/
def denseRank (w : Window Query) (rows : List ρ) (r : ρ) : Nat :=
  (((vw.peers w rows r).map (vw.sortKey w.orders)).toFinset.filter
    (· < vw.sortKey w.orders r)).card + 1

/-- `nums` are the ranks of the rows, one for each. Row numbers count every partition from one,
along some sort of it. -/
def Ranks (w : Window Query) (rows : List ρ) (nums : List Nat) : Prop :=
  match w.ranking with
  | .denseRank => nums = rows.map (vw.denseRank w rows)
  | .rowNumber =>
    nums.length = rows.length ∧
      ∀ p, ∃ sorted,
        IsSort (vw.sortKey w.orders) (rows.filter fun r => vw.partKey w.partition r = p) sorted ∧
        ((rows.zip nums).filter fun x => vw.partKey w.partition x.1 = p).Perm (sorted.zipIdx 1)

/-! ## One level -/

/-- The columns that an item of a select list gives. -/
def outputs (e : Expr Query) (r : ρ) : Tuple V :=
  match e with
  | .alias e name => [(some name, vw.value e r)]
  | .column c => [(some c.name, vw.value (.column c) r)]
  | .wildcard table => vw.whole table r
  | e => [(none, vw.value e r)]

/-- `listed` are the rows together with the results of a select list in them. -/
def Lists : List (Column Query) → List ρ → List (ρ × Tuple V) → Prop
  | [], rows, listed => listed = rows.map fun r => (r, [])
  | .expr e :: columns, rows, listed =>
    ∃ rest, Lists columns rows rest ∧ listed = rest.map fun x => (x.1, vw.outputs e x.1 ++ x.2)
  | .ranked w name :: columns, rows, listed =>
    ∃ nums rest, vw.Ranks w rows nums ∧ Lists columns rows rest ∧
      listed = List.zipWith (fun n x => (x.1, (some name, vw.number n) :: x.2)) nums rest

/-- The view of rows together with their results. A name alone stands for a result if there is one
of that name. -/
def withOutput : View (ρ × Tuple V) V where
  value e x :=
    match e with
    | .column ⟨none, name⟩ => (Tuple.get? x.2 name).getD (vw.value e x.1)
    | e => vw.value e x.1
  whole table x := vw.whole table x.1
  number := vw.number

end View

/-- `kept` are the rows that remain: all of them, or one for each different result. -/
def Keeps {ρ V : Type} (distinct : Bool) (rows kept : List (ρ × Tuple V)) : Prop :=
  if distinct then
    (∀ x ∈ kept, x ∈ rows) ∧ (kept.map fun x => Tuple.values x.2).Nodup ∧
      ∀ x ∈ rows, ∃ y ∈ kept, Tuple.values y.2 = Tuple.values x.2
  else kept = rows

/-- The first `n` rows, or all when there is no `n`. -/
def takeTop {α : Type} (n : Option Nat) (rows : List α) : List α :=
  match n with
  | some n => rows.take n
  | none => rows

/-- The part of a query that its rows come from. -/
def QueryBody.frame (q : QueryBody Query) : QueryBody Query :=
  { rows := q.rows, filters := q.filters, groups := q.groups, having := q.having }

/-- The column refers to columns of the rows, or ranks the rows. -/
def Column.IsReference : Column Query → Prop
  | .expr (.column _) => True
  | .expr (.wildcard _) => True
  | .expr _ => False
  | .ranked _ _ => True

/-! ## Databases -/

/-- What a query is evaluated on. The values have one order, which sorting and comparisons follow;
values that are equal in it are the same value. Expressions in the rows of a source are up to the
database, and so is everything around a derived table that is no column, integer or comparison. -/
structure Database (ρ V : Type) [LinearOrder V] where
  /-- the integers among the values -/
  int : Int ↪o V
  isNull : V → Bool
  isNull_int : ∀ i, isNull (int i) = false
  /-- the rows that remain after `FROM`, `WHERE`, `GROUP BY` and `HAVING` -/
  rows : QueryBody Query → List ρ
  /-- the value of an expression in such a row -/
  value : Expr Query → ρ → V
  /-- the columns of `*` or `table.*` in such a row -/
  whole : Option String → ρ → Tuple V
  /-- any other value in a row of a derived table -/
  otherValue : Expr Query → Tuple V → V
  /-- any other condition on a row of a derived table -/
  otherTest : Expr Query → Tuple V → Bool
  /-- any other row count -/
  otherCount : Expr Query → Nat

namespace Database

variable {ρ V : Type} [LinearOrder V] (db : Database ρ V)

/-- The view of the rows of a source. -/
def source : View ρ V where
  value := db.value
  whole := db.whole
  number n := db.int n

/-- The value of an expression in a row of the derived table `name`. -/
def derivedValue (name : String) (t : Tuple V) : Expr Query → V
  | .column c =>
    if c.table.all (· == name) then (Tuple.get? t c.name).getD (db.otherValue (.column c) t)
    else db.otherValue (.column c) t
  | .literal (.integer i) => db.int i.toInt
  | .grouping e => derivedValue name t e
  | e => db.otherValue e t

/-- The view of the rows of the derived table `name`. -/
def derived (name : String) : View (Tuple V) V where
  value e t := db.derivedValue name t e
  whole _ t := t
  number n := db.int n

/-- A row of the derived table `name` meets a condition. A comparison with null is not met. -/
def meets (name : String) (t : Tuple V) (e : Expr Query) : Bool :=
  let known (e : Expr Query) : Bool := !db.isNull (db.derivedValue name t e)
  match e with
  | .binary l .gt r =>
    known l && known r && decide (db.derivedValue name t r < db.derivedValue name t l)
  | .binary l .eq r =>
    known l && known r && decide (db.derivedValue name t l = db.derivedValue name t r)
  | e => db.otherTest e t

/-- The number of rows that `TOP` keeps. -/
def rowCount : Expr Query → Nat
  | .literal (.integer i) => i.toInt.toNat
  | e => db.otherCount e

end Database

/-- The select list, duplicates, order and limit of a query, over rows of type `ρ`. -/
def View.Gives {ρ V : Type} [LinearOrder V] (vw : View ρ V) (count : Expr Query → Nat)
    (q : QueryBody Query) (rows : List ρ) (result : List (Tuple V)) : Prop :=
  ∃ listed kept sorted,
    vw.Lists q.columns.flatten rows listed ∧ Keeps q.distinct listed kept ∧
      IsSort (vw.withOutput.sortKey q.orders) kept sorted ∧
      result = (takeTop (q.top.map count) sorted).map Prod.snd

/-- **The query may return these rows** on the database. A query over a derived table is read when
its list refers to columns of the table; its conditions choose among the rows of the table. -/
inductive Database.Yields {ρ V : Type} [LinearOrder V] (db : Database ρ V) :
    Query → List (Tuple V) → Prop
  | source {q : QueryBody Query} {result : List (Tuple V)} :
      (∀ inner name, q.rows ≠ some (.derived inner name)) →
      db.source.Gives db.rowCount q (db.rows q.frame) result → Yields db (.of q) result
  | derived {q : QueryBody Query} {inner : Query} {name : String} {rows result : List (Tuple V)} :
      q.rows = some (.derived inner name) → q.groups = [] → q.having = none →
      (∀ column ∈ q.columns.flatten, column.IsReference) → Yields db inner rows →
      (db.derived name).Gives db.rowCount q
        (rows.filter fun t => q.filters.all (db.meets name t)) result →
      Yields db (.of q) result

namespace Database

variable {ρ V : Type} [LinearOrder V] {db : Database ρ V} {q : QueryBody Query}
  {result : List (Tuple V)}

theorem yields_source_iff (h : ∀ inner name, q.rows ≠ some (.derived inner name)) :
    db.Yields (.of q) result ↔ db.source.Gives db.rowCount q (db.rows q.frame) result := by
  constructor
  · rintro (⟨-, hgives⟩ | ⟨hrows, -, -, -, -, -⟩)
    · exact hgives
    · exact absurd hrows (h _ _)
  · exact .source h

theorem yields_derived_iff {inner : Query} {name : String}
    (hrows : q.rows = some (.derived inner name)) (hgroups : q.groups = [])
    (hhaving : q.having = none) (hlist : ∀ column ∈ q.columns.flatten, column.IsReference) :
    db.Yields (.of q) result ↔
      ∃ rows, db.Yields inner rows ∧
        (db.derived name).Gives db.rowCount q
          (rows.filter fun t => q.filters.all (db.meets name t)) result := by
  constructor
  · rintro (⟨hsource, -⟩ | ⟨hrows', -, -, -, hinner, hgives⟩)
    · exact absurd hrows (hsource _ _)
    · obtain ⟨rfl, rfl⟩ : inner = _ ∧ name = _ := by simpa using hrows.symm.trans hrows'
      exact ⟨_, hinner, hgives⟩
  · rintro ⟨rows, hinner, hgives⟩
    exact .derived hrows hgroups hhaving hlist hinner hgives

end Database

end Transact
