import Mathlib.Data.List.Nodup

/-!
# Conditions and how they are read

A condition is written without parentheses around its operands, and read by precedence: `NOT` binds
tighter than `AND`, and `AND` tighter than `OR`. `Context.absorb` says what becomes of a condition
that is read after others.

* `Condition.value_reread`: the condition that is read has the value `Condition.read`.
* `Condition.read_of_isGrouped`: it is the value of the condition that was written when no `OR` is
  exposed to an `AND`.
* `Condition.exists_read_ne`: otherwise some truth values of the comparisons tell the two apart, as
  long as no comparison occurs twice.
-/

set_option autoImplicit false

namespace Transact.Sql

/-! ## Truth values -/

/-- What a comparison comes to: with a null it is neither true nor false. -/
inductive Truth where
  | false
  | unknown
  | true
deriving DecidableEq

namespace Truth

def ofBool (b : Bool) : Truth := if b then .true else .false

def not : Truth → Truth
  | .false => .true
  | .unknown => .unknown
  | .true => .false

def and : Truth → Truth → Truth
  | .true, x => x
  | .false, _ => .false
  | .unknown, .false => .false
  | .unknown, _ => .unknown

def or : Truth → Truth → Truth
  | .false, x => x
  | .true, _ => .true
  | .unknown, .true => .true
  | .unknown, _ => .unknown

/-- All of the values together. -/
def all (xs : List Truth) : Truth := xs.foldr and .true

@[simp] theorem true_and (x : Truth) : Truth.true.and x = x := rfl

@[simp] theorem false_and (x : Truth) : Truth.false.and x = .false := rfl

@[simp] theorem false_or (x : Truth) : Truth.false.or x = x := rfl

@[simp] theorem true_or (x : Truth) : Truth.true.or x = .true := rfl

@[simp] theorem and_true (x : Truth) : x.and .true = x := by cases x <;> rfl

@[simp] theorem and_false (x : Truth) : x.and .false = .false := by cases x <;> rfl

@[simp] theorem or_false (x : Truth) : x.or .false = x := by cases x <;> rfl

@[simp] theorem or_true (x : Truth) : x.or .true = .true := by cases x <;> rfl

@[simp] theorem not_not (x : Truth) : x.not.not = x := by cases x <;> rfl

theorem and_assoc (x y z : Truth) : (x.and y).and z = x.and (y.and z) := by
  cases x <;> cases y <;> cases z <;> rfl

theorem or_assoc (x y z : Truth) : (x.or y).or z = x.or (y.or z) := by
  cases x <;> cases y <;> cases z <;> rfl

end Truth

/-! ## Conditions -/

/-- A condition on comparisons of type `α`. -/
inductive Condition (α : Type) where
  | compare (a : α)
  | and (l r : Condition α)
  | or (l r : Condition α)
  | not (c : Condition α)
  /-- a condition in parentheses -/
  | group (c : Condition α)

namespace Condition

variable {α : Type}

/-- The comparisons of a condition. -/
def comparisons : Condition α → List α
  | .compare a => [a]
  | .and l r => comparisons l ++ comparisons r
  | .or l r => comparisons l ++ comparisons r
  | .not c => comparisons c
  | .group c => comparisons c

/-- What a condition comes to, given what its comparisons come to. -/
def value (v : α → Truth) : Condition α → Truth
  | .compare a => v a
  | .and l r => (value v l).and (value v r)
  | .or l r => (value v l).or (value v r)
  | .not c => (value v c).not
  | .group c => value v c

/-- An `OR` stands outside of all parentheses. -/
def exposesOr : Condition α → Bool
  | .compare _ => false
  | .and l r => exposesOr l || exposesOr r
  | .or _ _ => true
  | .not _ => false
  | .group _ => false

/-- No `OR` is exposed to an `AND`. -/
def isGrouped : Condition α → Bool
  | .compare _ => true
  | .and l r => isGrouped l && isGrouped r && !exposesOr l && !exposesOr r
  | .or l r => isGrouped l && isGrouped r
  | .not c => isGrouped c
  | .group c => isGrouped c

end Condition

/-! ## Reading by precedence -/

/-- What stands before a condition: the terms that an `OR` has ended, and the factors since then. -/
structure Context (α : Type) where
  terms : Option (Condition α) := none
  factors : Option (Condition α) := none

/-- What has been read after a factor. -/
structure Reading (α : Type) where
  terms : Option (Condition α)
  term : Condition α

section

variable {α : Type}

/-- Reads a factor. -/
def Context.add (k : Context α) (c : Condition α) : Reading α :=
  ⟨k.terms, k.factors.elim c (.and · c)⟩

namespace Reading

/-- The condition that has been read. -/
def condition (r : Reading α) : Condition α := r.terms.elim r.term (.or · r.term)

/-- After an `AND` the term goes on. -/
def and (r : Reading α) : Context α := ⟨r.terms, some r.term⟩

/-- After an `OR` a new term begins. -/
def or (r : Reading α) : Context α := ⟨some r.condition, none⟩

end Reading

/-- Reads the text of a condition, in which only `NOT` and groups have parentheses. -/
def Context.absorb : Context α → Condition α → Reading α
  | k, .compare a => k.add (.compare a)
  | k, .and l r => (k.absorb l).and.absorb r
  | k, .or l r => (k.absorb l).or.absorb r
  | k, .not c => k.add (.not (.group (({} : Context α).absorb c).condition))
  | k, .group c => k.add (.group (({} : Context α).absorb c).condition)

namespace Condition

variable (v : α → Truth)

/-- The condition that the text of a condition is read as. -/
def reread (c : Condition α) : Condition α := (({} : Context α).absorb c).condition

/-- What the terms and the factors that have been read come to after a condition more. -/
def scan : Condition α → Truth × Truth → Truth × Truth
  | .compare a, x => (x.1, x.2.and (v a))
  | .and l r, x => scan r (scan l x)
  | .or l r, x => scan r ((scan l x).1.or (scan l x).2, .true)
  | .not c, x => (x.1, x.2.and ((scan c (.false, .true)).1.or (scan c (.false, .true)).2).not)
  | .group c, x => (x.1, x.2.and ((scan c (.false, .true)).1.or (scan c (.false, .true)).2))

attribute [simp] scan

/-- What the text of a condition comes to. -/
def read (c : Condition α) : Truth :=
  (c.scan v (.false, .true)).1.or (c.scan v (.false, .true)).2

theorem value_condition (r : Reading α) :
    r.condition.value v = (r.terms.elim .false (value v)).or (r.term.value v) := by
  obtain ⟨terms, term⟩ := r
  cases terms <;> rfl

theorem scan_absorb : ∀ (c : Condition α) (k : Context α),
    (((k.absorb c).terms.elim .false (value v), (k.absorb c).term.value v) : Truth × Truth) =
      c.scan v (k.terms.elim .false (value v), k.factors.elim .true (value v)) := by
  have hadd : ∀ (k : Context α) (c : Condition α),
      (((k.add c).terms.elim .false (value v), (k.add c).term.value v) : Truth × Truth) =
        (k.terms.elim .false (value v), (k.factors.elim .true (value v)).and (c.value v)) := by
    rintro ⟨terms, factors⟩ c
    cases factors <;> rfl
  intro c
  induction c with
  | compare a => exact fun k => hadd k _
  | and l r hl hr =>
    intro k
    rw [Context.absorb, hr, scan, ← hl]
    rfl
  | or l r hl hr =>
    intro k
    rw [Context.absorb, hr, scan, ← hl, Reading.or]
    simp [value_condition]
  | not c ih =>
    intro k
    have h := ih {}
    rw [Context.absorb, hadd, value, value, value_condition, scan]
    simp only [Option.elim_none] at h
    rw [← h]
  | group c ih =>
    intro k
    have h := ih {}
    rw [Context.absorb, hadd, value, value_condition, scan]
    simp only [Option.elim_none] at h
    rw [← h]

/-- **What is read** comes to `read`. -/
theorem value_reread (c : Condition α) : c.reread.value v = c.read v := by
  have h := scan_absorb v c {}
  simp only [Option.elim_none] at h
  rw [reread, value_condition, read, ← h]

/-! ## Conditions that are read as they are written -/

theorem scan_of_not_exposesOr {c : Condition α} (h : c.exposesOr = false) (x : Truth × Truth) :
    c.scan v x = (x.1, x.2.and (c.read v)) := by
  induction c generalizing x with
  | compare a => rfl
  | and l r hl hr =>
    simp only [exposesOr, Bool.or_eq_false_iff] at h
    have hread : (l.and r).read v = (l.read v).and (r.read v) := by
      rw [read, scan, hl h.1, hr h.2]
      rfl
    rw [scan, hl h.1, hr h.2, hread, Truth.and_assoc]
  | or l r => cases h
  | not c => rfl
  | group c => rfl

/-- The terms before a condition stay. -/
theorem scan_fst (c : Condition α) (t f : Truth) :
    c.scan v (t, f) = (t.or (c.scan v (.false, f)).1, (c.scan v (.false, f)).2) := by
  induction c generalizing t f with
  | compare a => simp
  | and l r hl hr =>
    rw [scan, scan, hl t f, hr, hr (l.scan v (.false, f)).1, Truth.or_assoc]
  | or l r hl hr =>
    rw [scan, scan, hl t f, hr, hr ((l.scan v (.false, f)).1.or _), Truth.or_assoc, Truth.or_assoc,
      Truth.or_assoc]
  | not c => simp
  | group c => simp

theorem read_or (l r : Condition α) : (l.or r).read v = (l.read v).or (r.read v) := by
  rw [read, scan, scan_fst, Truth.or_assoc]
  rfl

theorem read_and {l r : Condition α} (hl : l.exposesOr = false) (hr : r.exposesOr = false) :
    (l.and r).read v = (l.read v).and (r.read v) := by
  rw [read, scan, scan_of_not_exposesOr v hl, scan_of_not_exposesOr v hr]
  rfl

theorem read_not (c : Condition α) : c.not.read v = (c.read v).not := rfl

theorem read_group (c : Condition α) : c.group.read v = c.read v := rfl

/-- **A condition without an `OR` that is exposed to an `AND`** is read as it is written. -/
theorem read_of_isGrouped {c : Condition α} (h : c.isGrouped = true) : c.read v = c.value v := by
  induction c with
  | compare a => rfl
  | and l r hl hr =>
    simp only [isGrouped, Bool.and_eq_true, Bool.not_eq_true'] at h
    obtain ⟨⟨⟨hgl, hgr⟩, hel⟩, her⟩ := h
    rw [read_and v hel her, hl hgl, hr hgr, value]
  | or l r hl hr =>
    simp only [isGrouped, Bool.and_eq_true] at h
    rw [read_or, hl h.1, hr h.2, value]
  | not c ih => rw [read_not, ih h, value]
  | group c ih => rw [read_group, ih h, value]

/-! ## Conditions that are not -/

-- To tell a misread `AND`, its operands are made true or false together with the terms that it
-- tears apart: the value of an operand alone would not say what becomes of its last term.

/-- The condition and all of its terms are true. -/
structure AllTrue (c : Condition α) : Prop where
  value : c.value v = .true
  scan : c.exposesOr = false → ∀ x, c.scan v x = x
  scan_snd : c.exposesOr = true → ∀ x, (c.scan v x).2 = .true
  scan_fst : c.exposesOr = true → ∀ t, (c.scan v (t, .true)).1 = .true

/-- The condition and all of its terms are false. -/
structure AllFalse (c : Condition α) : Prop where
  value : c.value v = .false
  scan : ∀ x, c.scan v x = (x.1, .false)

variable {v} {c l r : Condition α}

theorem AllTrue.read (h : c.AllTrue v) : c.read v = .true := by
  rw [Condition.read]
  cases he : c.exposesOr with
  | false =>
    rw [h.scan he]
    rfl
  | true => rw [h.scan_snd he, Truth.or_true]

theorem AllFalse.read (h : c.AllFalse v) : c.read v = .false := by
  rw [Condition.read, h.scan]
  rfl

theorem AllTrue.and (hl : l.AllTrue v) (hr : r.AllTrue v) : (l.and r).AllTrue v where
  value := by rw [Condition.value, hl.value, hr.value, Truth.true_and]
  scan he x := by
    simp only [exposesOr, Bool.or_eq_false_iff] at he
    rw [Condition.scan, hl.scan he.1, hr.scan he.2]
  scan_snd he x := by
    cases hre : r.exposesOr with
    | true => exact hr.scan_snd hre _
    | false =>
      rw [exposesOr, hre, Bool.or_false] at he
      rw [Condition.scan, hr.scan hre, hl.scan_snd he]
  scan_fst he t := by
    rw [Condition.scan]
    cases hle : l.exposesOr with
    | true => rw [← (l.scan v (t, .true)).eta, Condition.scan_fst, hl.scan_fst hle, Truth.true_or]
    | false =>
      rw [exposesOr, hle, Bool.false_or] at he
      rw [hl.scan hle, hr.scan_fst he]

theorem AllTrue.or (hl : l.AllTrue v) (hr : r.AllTrue v) : (l.or r).AllTrue v where
  value := by rw [Condition.value, hl.value, Truth.true_or]
  scan he := by cases he
  scan_snd _ x := by
    rw [Condition.scan]
    cases hre : r.exposesOr with
    | true => exact hr.scan_snd hre _
    | false => rw [hr.scan hre]
  scan_fst _ t := by
    have hterm : ((l.scan v (t, .true)).1.or (l.scan v (t, .true)).2) = .true := by
      cases hle : l.exposesOr with
      | true => rw [hl.scan_fst hle, Truth.true_or]
      | false => rw [hl.scan hle, Truth.or_true]
    rw [Condition.scan, hterm, Condition.scan_fst, Truth.true_or]

theorem AllFalse.and (hl : l.AllFalse v) (hr : r.AllFalse v) : (l.and r).AllFalse v where
  value := by rw [Condition.value, hl.value, Truth.false_and]
  scan x := by rw [Condition.scan, hl.scan, hr.scan]

theorem AllFalse.or (hl : l.AllFalse v) (hr : r.AllFalse v) : (l.or r).AllFalse v where
  value := by rw [Condition.value, hl.value, hr.value, Truth.false_or]
  scan x := by rw [Condition.scan, hl.scan, hr.scan, Truth.or_false]

theorem AllTrue.not (h : c.AllTrue v) : c.not.AllFalse v where
  value := by rw [Condition.value, h.value]; rfl
  scan x := by
    rw [scan_of_not_exposesOr v rfl, read_not, h.read]
    exact congrArg (x.1, ·) (Truth.and_false _)

theorem AllFalse.not (h : c.AllFalse v) : c.not.AllTrue v where
  value := by rw [Condition.value, h.value]; rfl
  scan _ x := by
    rw [scan_of_not_exposesOr v rfl, read_not, h.read]
    exact congrArg (x.1, ·) (Truth.and_true _)
  scan_snd he := by cases he
  scan_fst he := by cases he

theorem AllTrue.group (h : c.AllTrue v) : c.group.AllTrue v where
  value := by rw [Condition.value, h.value]
  scan _ x := by rw [scan_of_not_exposesOr v rfl, read_group, h.read, Truth.and_true]
  scan_snd he := by cases he
  scan_fst he := by cases he

theorem AllFalse.group (h : c.AllFalse v) : c.group.AllFalse v where
  value := by rw [Condition.value, h.value]
  scan x := by rw [scan_of_not_exposesOr v rfl, read_group, h.read, Truth.and_false]

theorem value_congr {w : α → Truth} (h : ∀ a ∈ c.comparisons, v a = w a) :
    c.value v = c.value w := by
  induction c with
  | compare a => exact h a List.mem_cons_self
  | and l r hl hr | or l r hl hr =>
    rw [value, value, hl fun a ha => h a (List.mem_append_left _ ha),
      hr fun a ha => h a (List.mem_append_right _ ha)]
  | not c ih | group c ih => rw [value, value, ih h]

theorem scan_congr {w : α → Truth} (h : ∀ a ∈ c.comparisons, v a = w a) : c.scan v = c.scan w := by
  induction c with
  | compare a =>
    funext x
    rw [scan, scan, h a List.mem_cons_self]
  | and l r hl hr | or l r hl hr =>
    funext x
    rw [scan, scan, hl fun a ha => h a (List.mem_append_left _ ha),
      hr fun a ha => h a (List.mem_append_right _ ha)]
  | not c ih | group c ih =>
    funext x
    rw [scan, scan, ih h]

theorem read_congr {w : α → Truth} (h : ∀ a ∈ c.comparisons, v a = w a) : c.read v = c.read w := by
  rw [read, read, scan_congr h]

theorem AllTrue.congr {w : α → Truth} (hc : c.AllTrue v) (h : ∀ a ∈ c.comparisons, v a = w a) :
    c.AllTrue w := by
  obtain ⟨hvalue, hscan, hsnd, hfst⟩ := hc
  rw [scan_congr h] at hscan hsnd hfst
  exact ⟨by rw [← value_congr h, hvalue], hscan, hsnd, hfst⟩

theorem AllFalse.congr {w : α → Truth} (hc : c.AllFalse v) (h : ∀ a ∈ c.comparisons, v a = w a) :
    c.AllFalse w := by
  obtain ⟨hvalue, hscan⟩ := hc
  rw [scan_congr h] at hscan
  exact ⟨by rw [← value_congr h, hvalue], hscan⟩

/-- Truth values of the comparisons, each of which is true or false. -/
def ofBools (v : α → Bool) (a : α) : Truth := .ofBool (v a)

/-- Conditions that share no comparison can be given their truth values independently. -/
theorem exists_ofBools (hdisjoint : l.comparisons.Disjoint r.comparisons) (vl vr : α → Bool) :
    ∃ v : α → Bool, (∀ a ∈ l.comparisons, ofBools vl a = ofBools v a) ∧
      ∀ a ∈ r.comparisons, ofBools vr a = ofBools v a := by
  classical
  refine ⟨fun a => if a ∈ l.comparisons then vl a else vr a, fun a ha => ?_, fun a ha => ?_⟩
  · simp [ofBools, ha]
  · have : a ∉ l.comparisons := fun hl => hdisjoint hl ha
    simp [ofBools, this]

theorem exists_both (hdisjoint : l.comparisons.Disjoint r.comparisons)
    (hl : (∃ v, l.AllTrue (ofBools v)) ∧ ∃ v, l.AllFalse (ofBools v))
    (hr : (∃ v, r.AllTrue (ofBools v)) ∧ ∃ v, r.AllFalse (ofBools v)) :
    (∃ v, l.AllTrue (ofBools v) ∧ r.AllTrue (ofBools v)) ∧
      ∃ v, l.AllFalse (ofBools v) ∧ r.AllFalse (ofBools v) := by
  obtain ⟨⟨tl, htl⟩, fl, hfl⟩ := hl
  obtain ⟨⟨tr, htr⟩, fr, hfr⟩ := hr
  obtain ⟨t, ht, ht'⟩ := exists_ofBools hdisjoint tl tr
  obtain ⟨f, hf, hf'⟩ := exists_ofBools hdisjoint fl fr
  exact ⟨⟨t, htl.congr ht, htr.congr ht'⟩, f, hfl.congr hf, hfr.congr hf'⟩

/-- **A condition in which no comparison occurs twice** can be made true and false, together with
all of its terms. -/
theorem exists_all (hnodup : c.comparisons.Nodup) :
    (∃ v, c.AllTrue (ofBools v)) ∧ ∃ v, c.AllFalse (ofBools v) := by
  induction c with
  | compare a =>
    refine ⟨⟨fun _ => true, ⟨rfl, fun _ x => ?_, fun he => ?_, fun he => ?_⟩⟩,
      ⟨fun _ => false, ⟨rfl, fun x => ?_⟩⟩⟩
    · exact congrArg (x.1, ·) (Truth.and_true _)
    · cases he
    · cases he
    · exact congrArg (x.1, ·) (Truth.and_false _)
  | and l r hl hr =>
    obtain ⟨hnl, hnr, hdisjoint⟩ := List.nodup_append'.1 hnodup
    obtain ⟨⟨t, htl, htr⟩, f, hfl, hfr⟩ := exists_both hdisjoint (hl hnl) (hr hnr)
    exact ⟨⟨t, htl.and htr⟩, f, hfl.and hfr⟩
  | or l r hl hr =>
    obtain ⟨hnl, hnr, hdisjoint⟩ := List.nodup_append'.1 hnodup
    obtain ⟨⟨t, htl, htr⟩, f, hfl, hfr⟩ := exists_both hdisjoint (hl hnl) (hr hnr)
    exact ⟨⟨t, htl.or htr⟩, f, hfl.or hfr⟩
  | not c ih =>
    obtain ⟨⟨t, ht⟩, f, hf⟩ := ih hnodup
    exact ⟨⟨f, hf.not⟩, t, ht.not⟩
  | group c ih =>
    obtain ⟨⟨t, ht⟩, f, hf⟩ := ih hnodup
    exact ⟨⟨t, ht.group⟩, f, hf.group⟩

/-- An `OR` that is exposed to an `AND` makes the whole true when its terms are, even if the other
operand is false. -/
theorem exists_read_and_ne (hnodup : (l.and r).comparisons.Nodup)
    (he : (l.and r).exposesOr = true) :
    ∃ v : α → Bool, (l.and r).read (ofBools v) ≠ (l.and r).value (ofBools v) := by
  obtain ⟨hnl, hnr, hdisjoint⟩ := List.nodup_append'.1 hnodup
  obtain ⟨⟨tl, htl⟩, fl, hfl⟩ := exists_all hnl
  obtain ⟨⟨tr, htr⟩, fr, hfr⟩ := exists_all hnr
  cases hle : l.exposesOr with
  | true =>
    obtain ⟨v, hl, hr⟩ := exists_ofBools hdisjoint tl fr
    refine ⟨v, ?_⟩
    have hfst := (htl.congr hl).scan_fst hle .false
    rw [value, (hfr.congr hr).value, Truth.and_false, read, scan, (hfr.congr hr).scan, hfst]
    decide
  | false =>
    rw [exposesOr, hle, Bool.false_or] at he
    obtain ⟨v, hl, hr⟩ := exists_ofBools hdisjoint fl tr
    refine ⟨v, ?_⟩
    rw [value, (hfl.congr hl).value, Truth.false_and, read, scan,
      (htr.congr hr).scan_snd he, Truth.or_true]
    decide

/-- What tells two readings of one operand apart tells them apart in the whole, when the other
operand is neutral. -/
theorem exists_ne_of_left (op : Truth → Truth → Truth) {e : Truth} (hop : ∀ x, op x e = x)
    (hdisjoint : l.comparisons.Disjoint r.comparisons)
    (hl : ∃ v : α → Bool, l.read (ofBools v) ≠ l.value (ofBools v))
    (hr : ∃ v : α → Bool, r.read (ofBools v) = e ∧ r.value (ofBools v) = e) :
    ∃ v : α → Bool, op (l.read (ofBools v)) (r.read (ofBools v)) ≠
      op (l.value (ofBools v)) (r.value (ofBools v)) := by
  obtain ⟨vl, hl⟩ := hl
  obtain ⟨vr, hread, hvalue⟩ := hr
  obtain ⟨v, hvl, hvr⟩ := exists_ofBools hdisjoint vl vr
  refine ⟨v, ?_⟩
  rw [← read_congr hvr, ← value_congr hvr, hread, hvalue, hop, hop, ← read_congr hvl,
    ← value_congr hvl]
  exact hl

/-- **A condition with an `OR` that is exposed to an `AND`** is not read as it is written, if no
comparison occurs twice. -/
theorem exists_read_ne (hnodup : c.comparisons.Nodup) (h : c.isGrouped = false) :
    ∃ v : α → Bool, c.read (ofBools v) ≠ c.value (ofBools v) := by
  induction c with
  | compare a => cases h
  | and l r hl hr =>
    cases he : (l.and r).exposesOr with
    | true => exact exists_read_and_ne hnodup he
    | false =>
      obtain ⟨hnl, hnr, hdisjoint⟩ := List.nodup_append'.1 hnodup
      rw [exposesOr, Bool.or_eq_false_iff] at he
      simp only [read_and _ he.1 he.2, value]
      rw [isGrouped, he.1, he.2] at h
      cases hgl : l.isGrouped with
      | false =>
        obtain ⟨⟨w, hw⟩, -⟩ := exists_all hnr
        exact exists_ne_of_left Truth.and Truth.and_true hdisjoint (hl hnl hgl)
          ⟨w, hw.read, hw.value⟩
      | true =>
        obtain ⟨⟨w, hw⟩, -⟩ := exists_all hnl
        exact exists_ne_of_left (fun x y => y.and x) Truth.true_and (List.disjoint_symm hdisjoint)
          (hr hnr (by simpa [hgl] using h)) ⟨w, hw.read, hw.value⟩
  | or l r hl hr =>
    obtain ⟨hnl, hnr, hdisjoint⟩ := List.nodup_append'.1 hnodup
    simp only [read_or, value]
    rw [isGrouped] at h
    cases hgl : l.isGrouped with
    | false =>
      obtain ⟨-, w, hw⟩ := exists_all hnr
      exact exists_ne_of_left Truth.or Truth.or_false hdisjoint (hl hnl hgl) ⟨w, hw.read, hw.value⟩
    | true =>
      obtain ⟨-, w, hw⟩ := exists_all hnl
      exact exists_ne_of_left (fun x y => y.or x) Truth.false_or (List.disjoint_symm hdisjoint)
        (hr hnr (by simpa [hgl] using h)) ⟨w, hw.read, hw.value⟩
  | not c ih =>
    obtain ⟨v, hv⟩ := ih hnodup h
    refine ⟨v, fun hnot => hv ?_⟩
    rw [← Truth.not_not (c.read _), ← read_not, hnot, value, Truth.not_not]
  | group c ih => exact ih hnodup h

end Condition

end

end Transact.Sql
