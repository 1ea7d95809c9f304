import Mathlib.Data.List.Forall2
import Transact.Codec.Encode
import Transact.Proofs.Json.Brackets

/-!
# Forms of JSON values

One value of the library has many JSON values: the fields of a record may stand in any order or be
given as an array, fields that nobody knows may stand among them, and so on. A `Form` says which
JSON values are meant, and `Form.json` is the one that is written.

* `Form.Admits`: the outlines of a form, in which unknown fields are left open.
* `Form.nesting_json_le`: what is written nests no deeper than any outline of the form.
* `Form.Fits`: a JSON value has an outline of the form with at most so many brackets open, and
  `fits_list`, `fits_variant`, `fits_record` say so part by part.
-/

set_option autoImplicit false

namespace Transact.Json

open Number

/-- How a value may be written in JSON. -/
inductive Form where
  | text (s : String)
  | flag (b : Bool)
  | integer (i : Int)
  /-- a double, or an integer that stands for it -/
  | float (x : Binary64)
  /-- every text with this meaning -/
  | reading (written : String) (means : String → Prop) (h : means written)
  /-- a value that is not there -/
  | absent
  | list (items : List Form)
  /-- a variant without a payload -/
  | name (tag : String)
  | variant (tag : String) (payload : Form)
  | record (fields : List (String × Form))

namespace Form

/-- A value that may be absent. -/
def ofOption {α : Type} (f : α → Form) : Option α → Form
  | none => .absent
  | some a => f a

mutual

/-- What is written. -/
def json : Form → Json
  | .text s => .string s
  | .flag b => .bool b
  | .integer i => .integer i
  | .float x => .float x
  | .reading written _ _ => .string written
  | .absent => .null
  | .list items => .array (jsonItems items)
  | .name tag => .string tag
  | .variant tag payload => .variant tag payload.json
  | .record fields => .object (jsonFields fields)

/-- What is written for the items. -/
def jsonItems : List Form → List Json
  | [] => []
  | f :: fs => f.json :: jsonItems fs

/-- What is written for the fields. -/
def jsonFields : List (String × Form) → List (String × Json)
  | [] => []
  | (key, f) :: fs => (key, f.json) :: jsonFields fs

end

mutual

/-- The outlines of a form. -/
inductive Admits : Form → Json → Prop where
  | text (s : String) : Admits (.text s) (.string s)
  | flag (b : Bool) : Admits (.flag b) (.bool b)
  | integer (i : Int) : Admits (.integer i) (.integer i)
  | float (x : Binary64) : Admits (.float x) (.float x)
  | whole {i : Int} {x : Binary64} (h : Binary64.ofInt i = x) : Admits (.float x) (.integer i)
  | reading {written s : String} {means : String → Prop} {hwritten : means written} (h : means s) :
      Admits (.reading written means hwritten) (.string s)
  | absent : Admits .absent .null
  | list {fs : List Form} {vs : List Json} (h : AdmitsItems fs vs) : Admits (.list fs) (.array vs)
  | name (tag : String) : Admits (.name tag) (.string tag)
  /-- a variant without a payload, with `null` as its payload -/
  | emptyPayload (tag : String) : Admits (.name tag) (.object [(tag, .null)])
  | variant {tag : String} {f : Form} {v : Json} (h : Admits f v) :
      Admits (.variant tag f) (.object [(tag, v)])
  /-- a record as the array of its fields -/
  | inOrder {fields : List (String × Form)} {vs : List Json}
      (h : AdmitsItems (fields.map Prod.snd) vs) : Admits (.record fields) (.array vs)
  /-- a record as an object of its fields and unknown ones, in any order -/
  | byName {fields : List (String × Form)} {given unknown vs : List (String × Json)}
      (h : AdmitsFields fields given)
      (hunknown : ∀ u ∈ unknown, u.1 ∉ fields.map Prod.fst ∧ u.2 = .unreadable)
      (hperm : vs.Perm (given ++ unknown)) : Admits (.record fields) (.object vs)

/-- The outlines of the items. -/
inductive AdmitsItems : List Form → List Json → Prop where
  | nil : AdmitsItems [] []
  | cons {f : Form} {fs : List Form} {v : Json} {vs : List Json} (h : Admits f v)
      (hrest : AdmitsItems fs vs) : AdmitsItems (f :: fs) (v :: vs)

/-- The outlines of the fields that are given. -/
inductive AdmitsFields : List (String × Form) → List (String × Json) → Prop where
  | nil : AdmitsFields [] []
  | cons {key : String} {f : Form} {fs : List (String × Form)} {v : Json}
      {vs : List (String × Json)} (h : Admits f v) (hrest : AdmitsFields fs vs) :
      AdmitsFields ((key, f) :: fs) ((key, v) :: vs)
  /-- a field that holds nothing may be left out -/
  | leftOut {key : String} {fs : List (String × Form)} {vs : List (String × Json)}
      (hrest : AdmitsFields fs vs) : AdmitsFields ((key, .absent) :: fs) vs

end

/-! ## What is written -/

theorem jsonItems_eq (fs : List Form) : jsonItems fs = fs.map json := by
  induction fs with
  | nil => rfl
  | cons f fs ih => rw [jsonItems, ih, List.map_cons]

mutual

/-- What is written is of the form. -/
theorem admits_json : ∀ f : Form, f.Admits f.json
  | .text s => .text s
  | .flag b => .flag b
  | .integer i => .integer i
  | .float x => .float x
  | .reading _ _ h => .reading h
  | .absent => .absent
  | .list items => .list (admits_jsonItems items)
  | .name tag => .name tag
  | .variant _ payload => .variant (admits_json payload)
  | .record fields =>
    .byName (admits_jsonFields fields) (List.forall_mem_nil _) (by rw [List.append_nil])

theorem admits_jsonItems : ∀ fs : List Form, AdmitsItems fs (jsonItems fs)
  | [] => .nil
  | f :: fs => .cons (admits_json f) (admits_jsonItems fs)

theorem admits_jsonFields : ∀ fs : List (String × Form), AdmitsFields fs (jsonFields fs)
  | [] => .nil
  | (_, f) :: fs => .cons (admits_json f) (admits_jsonFields fs)

end

end Form

/-! ## Nesting -/

theorem nestingItems_le {vs : List Json} {n : Nat} :
    nestingItems vs ≤ n ↔ ∀ v ∈ vs, v.nesting ≤ n := by
  induction vs with
  | nil => simp [nestingItems]
  | cons v vs ih => simp [nestingItems, ih]

theorem nestingFields_le {fs : List (String × Json)} {n : Nat} :
    nestingFields fs ≤ n ↔ ∀ f ∈ fs, f.2.nesting ≤ n := by
  rw [nestingFields_eq, nestingItems_le, List.forall_mem_map]

namespace Form

theorem nestingItems_values (fields : List (String × Form)) :
    nestingItems (jsonItems (fields.map Prod.snd)) = nestingFields (jsonFields fields) := by
  induction fields with
  | nil => rfl
  | cons field fields ih =>
    rw [List.map_cons, jsonItems, jsonFields, nestingItems, nestingFields, ih]

mutual

/-- What is written nests no deeper than any outline of the form. -/
theorem nesting_json_le : ∀ {f : Form} {v : Json}, f.Admits v → f.json.nesting ≤ v.nesting
  | _, _, .text _ | _, _, .flag _ | _, _, .integer _ | _, _, .float _ | _, _, .absent
  | _, _, .name _ => Nat.le_refl _
  | _, _, .whole _ | _, _, .reading _ | _, _, .emptyPayload _ => Nat.zero_le _
  | _, _, .list h => Nat.succ_le_succ (nestingItems_json_le h)
  | _, _, .variant h => by
    have ih := nesting_json_le h
    simp only [json, Json.variant, nesting, nestingFields]
    omega
  | _, _, .inOrder h => by
    rw [json, nesting, nesting, ← nestingItems_values]
    exact Nat.succ_le_succ (nestingItems_json_le h)
  | _, _, .byName h _ hperm => by
    have hgiven := nestingFields_json_le h
    refine Nat.succ_le_succ (Nat.le_trans hgiven (nestingFields_le.2 fun f hf => ?_))
    exact nestingFields_le.1 (Nat.le_refl _) f (hperm.mem_iff.2 (List.mem_append_left _ hf))

theorem nestingItems_json_le : ∀ {fs : List Form} {vs : List Json}, AdmitsItems fs vs →
    nestingItems (jsonItems fs) ≤ nestingItems vs
  | _, _, .nil => Nat.le_refl _
  | _, _, .cons h hrest => by
    have hv := nesting_json_le h
    have hvs := nestingItems_json_le hrest
    simp only [jsonItems, nestingItems]
    omega

theorem nestingFields_json_le : ∀ {fs : List (String × Form)} {vs : List (String × Json)},
    AdmitsFields fs vs → nestingFields (jsonFields fs) ≤ nestingFields vs
  | _, _, .nil => Nat.le_refl _
  | _, _, .cons h hrest => by
    have hv := nesting_json_le h
    have hvs := nestingFields_json_le hrest
    simp only [jsonFields, nestingFields]
    omega
  | _, _, .leftOut hrest => by
    have hvs := nestingFields_json_le hrest
    simp only [jsonFields, nestingFields, json, nesting]
    omega

end

/-! ## Fitting values -/

/-- The value has an outline of the form, with at most `room` brackets open at once. -/
def Fits (f : Form) (room : Nat) (j : Json) : Prop :=
  ∃ v : Json, f.Admits v ∧ v.Covers j ∧ v.nesting ≤ room

section

variable {room : Nat} {j : Json}

theorem fits_text {s : String} : (text s).Fits room j ↔ j = .string s := by
  constructor
  · rintro ⟨_, ⟨⟩, hcovers, -⟩
    exact hcovers
  · rintro rfl
    exact ⟨_, .text _, rfl, Nat.zero_le room⟩

theorem fits_flag {b : Bool} : (flag b).Fits room j ↔ j = .bool b := by
  constructor
  · rintro ⟨_, ⟨⟩, hcovers, -⟩
    exact hcovers
  · rintro rfl
    exact ⟨_, .flag _, rfl, Nat.zero_le room⟩

theorem fits_integer {i : Int} : (integer i).Fits room j ↔ j = .integer i := by
  constructor
  · rintro ⟨_, ⟨⟩, hcovers, -⟩
    exact hcovers
  · rintro rfl
    exact ⟨_, .integer _, rfl, Nat.zero_le room⟩

theorem fits_float {x : Binary64} : (float x).Fits room j ↔
    j = .float x ∨ ∃ i, j = .integer i ∧ Binary64.ofInt i = x := by
  constructor
  · rintro ⟨_, h, hcovers, -⟩
    cases h with
    | float => exact .inl hcovers
    | whole h => exact .inr ⟨_, hcovers, h⟩
  · rintro (rfl | ⟨i, rfl, h⟩)
    · exact ⟨_, .float x, rfl, Nat.zero_le room⟩
    · exact ⟨_, .whole h, rfl, Nat.zero_le room⟩

theorem fits_reading {written : String} {means : String → Prop} {hwritten : means written} :
    (reading written means hwritten).Fits room j ↔ ∃ s, j = .string s ∧ means s := by
  constructor
  · rintro ⟨_, h, hcovers, -⟩
    cases h with
    | reading h => exact ⟨_, hcovers, h⟩
  · rintro ⟨s, rfl, h⟩
    exact ⟨_, .reading h, rfl, Nat.zero_le room⟩

theorem fits_absent : absent.Fits room j ↔ j = .null := by
  constructor
  · rintro ⟨_, ⟨⟩, hcovers, -⟩
    exact hcovers
  · rintro rfl
    exact ⟨_, .absent, rfl, Nat.zero_le room⟩

/-- Nothing but an absent value is `null`. -/
theorem not_fits_null {f : Form} (hf : f ≠ .absent) : ¬f.Fits room .null := by
  rintro ⟨v, h, hcovers, -⟩
  cases h with
  | absent => exact hf rfl
  | _ => simp [Covers] at hcovers

theorem fits_name {tag : String} : (name tag).Fits room j ↔
    j = .string tag ∨ ∃ k, room = k + 1 ∧ j = .object [(tag, .null)] := by
  constructor
  · rintro ⟨_, h, hcovers, hroom⟩
    cases h with
    | name => exact .inl hcovers
    | emptyPayload =>
      obtain ⟨_, rfl, _, _, rfl, rfl, rfl⟩ := hcovers
      exact .inr ⟨room - 1, by simp [nesting, nestingFields] at hroom; omega, rfl⟩
  · rintro (rfl | ⟨k, rfl, rfl⟩)
    · exact ⟨_, .name tag, rfl, Nat.zero_le room⟩
    · exact ⟨_, .emptyPayload tag, covers_refl _, by simp [nesting, nestingFields]⟩

theorem fits_variant {tag : String} {f : Form} : (variant tag f).Fits room j ↔
    ∃ k i, room = k + 1 ∧ j = .object [(tag, i)] ∧ f.Fits k i := by
  constructor
  · rintro ⟨_, h, hcovers, hroom⟩
    cases h with
    | variant h =>
      obtain ⟨_, rfl, i, _, rfl, hi, rfl⟩ := hcovers
      simp only [nesting, nestingFields] at hroom
      exact ⟨room - 1, i, by omega, rfl, _, h, hi, by omega⟩
  · rintro ⟨k, i, rfl, rfl, v, hv, hi, hk⟩
    refine ⟨_, .variant hv, ⟨_, rfl, i, [], rfl, hi, rfl⟩, ?_⟩
    simp only [nesting, nestingFields]
    omega

/-! ### Items -/

/-- Items fit one by one. -/
theorem fits_items {fs : List Form} {k : Nat} {is : List Json} :
    (∃ vs, AdmitsItems fs vs ∧ CoversItems vs is ∧ nestingItems vs ≤ k) ↔
      List.Forall₂ (fun f i => f.Fits k i) fs is := by
  induction fs generalizing is with
  | nil =>
    constructor
    · rintro ⟨_, ⟨⟩, rfl, -⟩
      exact .nil
    · rintro ⟨⟩
      exact ⟨[], .nil, rfl, Nat.zero_le k⟩
  | cons f fs ih =>
    constructor
    · rintro ⟨_, h, hcovers, hk⟩
      cases h with
      | cons h hrest =>
        obtain ⟨i, is, rfl, hi, his⟩ := hcovers
        simp only [nestingItems, Nat.max_le] at hk
        exact .cons ⟨_, h, hi, hk.1⟩ (ih.1 ⟨_, hrest, his, hk.2⟩)
    · intro h
      cases h with
      | cons h hrest =>
        obtain ⟨v, hv, hi, hk⟩ := h
        obtain ⟨vs, hvs, his, hks⟩ := ih.2 hrest
        exact ⟨v :: vs, .cons hv hvs, ⟨_, _, rfl, hi, his⟩, Nat.max_le.2 ⟨hk, hks⟩⟩

theorem fits_list {fs : List Form} : (list fs).Fits room j ↔
    ∃ k is, room = k + 1 ∧ j = .array is ∧ List.Forall₂ (fun f i => f.Fits k i) fs is := by
  constructor
  · rintro ⟨_, h, hcovers, hroom⟩
    cases h with
    | list h =>
      obtain ⟨is, rfl, his⟩ := hcovers
      simp only [nesting] at hroom
      exact ⟨room - 1, is, by omega, rfl, fits_items.1 ⟨_, h, his, by omega⟩⟩
  · rintro ⟨k, is, rfl, rfl, h⟩
    obtain ⟨vs, hvs, his, hk⟩ := fits_items.2 h
    exact ⟨.array vs, .list hvs, ⟨is, rfl, his⟩, Nat.succ_le_succ hk⟩

/-! ### Fields -/

/-- The values of all fields of this name. -/
def valuesAt (key : String) (gs : List (String × Json)) : List Json :=
  (gs.filter (·.1 = key)).map Prod.snd

theorem valuesAt_append (key : String) (gs hs : List (String × Json)) :
    valuesAt key (gs ++ hs) = valuesAt key gs ++ valuesAt key hs := by
  simp [valuesAt]

theorem valuesAt_cons (key : String) (g : String × Json) (gs : List (String × Json)) :
    valuesAt key (g :: gs) = if g.1 = key then g.2 :: valuesAt key gs else valuesAt key gs := by
  by_cases h : g.1 = key <;> simp [valuesAt, h]

theorem valuesAt_eq_nil {key : String} {gs : List (String × Json)} :
    valuesAt key gs = [] ↔ ∀ g ∈ gs, g.1 ≠ key := by
  simp [valuesAt]

/-- The field is given once, or holds nothing and is left out. -/
def FitsField (k : Nat) (field : String × Form) (gs : List (String × Json)) : Prop :=
  (∃ i, valuesAt field.1 gs = [i] ∧ field.2.Fits k i) ∨
    (field.2 = .absent ∧ valuesAt field.1 gs = [])

theorem AdmitsFields.valuesAt_eq_nil {fields : List (String × Form)} {key : String} :
    ∀ {given : List (String × Json)}, AdmitsFields fields given → key ∉ fields.map Prod.fst →
      valuesAt key given = [] := by
  intro given h hkey
  induction fields generalizing given with
  | nil =>
    cases h
    rfl
  | cons field fields ih =>
    simp only [List.map_cons, List.mem_cons, not_or] at hkey
    cases h with
    | cons h hrest => rw [valuesAt_cons, if_neg (Ne.symm hkey.1), ih hrest hkey.2]
    | leftOut hrest => exact ih hrest hkey.2

/-- Among the fields that are given, each one is given once or left out. -/
theorem AdmitsFields.valuesAt {fields : List (String × Form)} {given : List (String × Json)}
    (h : AdmitsFields fields given) (hnodup : (fields.map Prod.fst).Nodup)
    {field : String × Form} (hfield : field ∈ fields) :
    (∃ v, Form.valuesAt field.1 given = [v] ∧ field.2.Admits v) ∨
      (field.2 = .absent ∧ Form.valuesAt field.1 given = []) := by
  induction fields generalizing given with
  | nil => cases hfield
  | cons first fields ih =>
    rw [List.map_cons, List.nodup_cons] at hnodup
    rcases List.mem_cons.1 hfield with rfl | hmem
    · cases h with
      | cons h hrest =>
        refine .inl ⟨_, ?_, h⟩
        rw [valuesAt_cons, if_pos rfl, hrest.valuesAt_eq_nil hnodup.1]
      | leftOut hrest => exact .inr ⟨rfl, hrest.valuesAt_eq_nil hnodup.1⟩
    · have hne : first.1 ≠ field.1 := by
        rintro heq
        exact hnodup.1 (heq ▸ List.mem_map_of_mem hmem)
      cases h with
      | cons h hrest =>
        rw [valuesAt_cons, if_neg hne]
        exact ih hrest hnodup.2 hmem
      | leftOut hrest => exact ih hrest hnodup.2 hmem

theorem covers_valuesAt {fs gs : List (String × Json)} (h : CoversFields fs gs) (key : String) :
    CoversItems (valuesAt key fs) (valuesAt key gs) := by
  rw [coversFields_iff] at h
  induction h with
  | nil => rfl
  | cons hfield _ ih =>
    obtain ⟨hname, hcovers⟩ := hfield
    rw [valuesAt_cons, valuesAt_cons, hname]
    split
    · exact ⟨_, _, rfl, hcovers, ih⟩
    · exact ih

/-- The fields of an outline fit one by one. -/
theorem fitsField_of_admits {fields : List (String × Form)}
    {given unknown vs gs : List (String × Json)} {k : Nat}
    (hnodup : (fields.map Prod.fst).Nodup) (h : AdmitsFields fields given)
    (hunknown : ∀ u ∈ unknown, u.1 ∉ fields.map Prod.fst) (hperm : vs.Perm (given ++ unknown))
    (hcovers : CoversFields vs gs) (hk : nestingFields vs ≤ k) {field : String × Form}
    (hfield : field ∈ fields) : FitsField k field gs := by
  have hvs : (valuesAt field.1 vs).Perm (valuesAt field.1 given) := by
    have hnone : valuesAt field.1 unknown = [] := valuesAt_eq_nil.2 fun u hu heq =>
      hunknown u hu (heq ▸ List.mem_map_of_mem hfield)
    have hall := (hperm.filter (·.1 = field.1)).map Prod.snd
    rwa [← valuesAt, ← valuesAt, valuesAt_append, hnone, List.append_nil] at hall
  have hitems := covers_valuesAt hcovers field.1
  rcases h.valuesAt hnodup hfield with ⟨v, hgiven, hv⟩ | ⟨hform, hgiven⟩
  · rw [hgiven, List.perm_singleton] at hvs
    rw [hvs] at hitems
    obtain ⟨i, _, hi, hcover, rfl⟩ := hitems
    have hmem : v ∈ (vs.filter (·.1 = field.1)).map Prod.snd := by
      rw [← valuesAt, hvs]
      exact List.mem_singleton_self v
    obtain ⟨g, hg, rfl⟩ := List.mem_map.1 hmem
    exact .inl ⟨i, hi, _, hv, hcover, nestingFields_le.1 hk g (List.mem_of_mem_filter hg)⟩
  · rw [hgiven, List.perm_nil] at hvs
    rw [hvs] at hitems
    exact .inr ⟨hform, hitems⟩

theorem names_of_covers {fs gs : List (String × Json)} (h : CoversFields fs gs) :
    fs.map Prod.fst = gs.map Prod.fst := by
  rw [coversFields_iff] at h
  induction h with
  | nil => rfl
  | cons hfield _ ih => rw [List.map_cons, List.map_cons, hfield.1, ih]

theorem coversFields_insert {before after vs : List (String × Json)} {v i : Json} (key : String)
    (h : CoversFields vs (before ++ after)) (hv : v.Covers i) :
    ∃ ws, ws.Perm ((key, v) :: vs) ∧ CoversFields ws (before ++ (key, i) :: after) := by
  rw [coversFields_iff] at h
  refine ⟨vs.take before.length ++ (key, v) :: vs.drop before.length, ?_, ?_⟩
  · refine List.perm_middle.trans ?_
    rw [List.take_append_drop]
  · exact coversFields_iff.2 (List.rel_append (List.forall₂_take_append vs before after h)
      (.cons ⟨rfl, hv⟩ (List.forall₂_drop_append vs before after h)))

/-- Unknown fields stay unknown when a name is added that they do not have. -/
theorem unknown_cons {fields : List (String × Form)} {given unknown vs gs : List (String × Json)}
    {key : String} {f : Form}
    (hunknown : ∀ u ∈ unknown, u.1 ∉ fields.map Prod.fst ∧ u.2 = .unreadable)
    (hperm : vs.Perm (given ++ unknown)) (hcovers : CoversFields vs gs)
    (hkey : ∀ g ∈ gs, g.1 ≠ key) :
    ∀ u ∈ unknown, u.1 ∉ ((key, f) :: fields).map Prod.fst ∧ u.2 = .unreadable := by
  intro u hu
  obtain ⟨hfields, hvalue⟩ := hunknown u hu
  have hmem : u.1 ∈ vs.map Prod.fst :=
    List.mem_map_of_mem (hperm.mem_iff.2 (List.mem_append_right given hu))
  rw [names_of_covers hcovers] at hmem
  obtain ⟨g, hg, hname⟩ := List.mem_map.1 hmem
  refine ⟨?_, hvalue⟩
  rw [List.map_cons, List.mem_cons, not_or]
  exact ⟨hname ▸ hkey g hg, hfields⟩

/-- Fields that fit one by one have an outline. -/
theorem admits_of_fitsField {k : Nat} {fields : List (String × Form)} {gs : List (String × Json)}
    (hnodup : (fields.map Prod.fst).Nodup) (hfits : ∀ field ∈ fields, FitsField k field gs) :
    ∃ given unknown vs, AdmitsFields fields given ∧
      (∀ u ∈ unknown, u.1 ∉ fields.map Prod.fst ∧ u.2 = .unreadable) ∧
      vs.Perm (given ++ unknown) ∧ CoversFields vs gs ∧ nestingFields vs ≤ k := by
  induction fields generalizing gs with
  | nil =>
    have hopen : ∀ u ∈ gs.map fun g => (g.1, Json.unreadable), u.2 = .unreadable := by
      intro u hu
      obtain ⟨g, -, rfl⟩ := List.mem_map.1 hu
      rfl
    refine ⟨[], gs.map fun g => (g.1, .unreadable), _, .nil, ?_, .refl _, ?_, ?_⟩
    · exact fun u hu => ⟨List.not_mem_nil, hopen u hu⟩
    · rw [coversFields_iff, List.nil_append, List.forall₂_map_left_iff]
      exact List.forall₂_same.2 fun _ _ => ⟨rfl, trivial⟩
    · refine nestingFields_le.2 fun u hu => ?_
      rw [hopen u hu]
      exact Nat.zero_le k
  | cons field fields ih =>
    obtain ⟨_, f⟩ := field
    rw [List.map_cons, List.nodup_cons] at hnodup
    rcases hfits _ List.mem_cons_self with ⟨i, hvalues, v, hv, hi, hk⟩ | ⟨hform, hvalues⟩
    · -- take the field out, and put it back into the outline of the others
      obtain ⟨⟨key, i⟩, hg, rfl⟩ := List.map_eq_singleton_iff.1 hvalues
      obtain ⟨before, after, rfl, hbefore, hkey, hafter⟩ := List.filter_eq_cons_iff.1 hg
      simp only [decide_eq_true_eq, List.filter_eq_nil_iff] at hbefore hkey hafter
      subst hkey
      have hothers : ∀ field ∈ fields, FitsField k field (before ++ after) := by
        intro field hfield
        have hne : key ≠ field.1 := fun heq => hnodup.1 (List.mem_map.2 ⟨field, hfield, heq.symm⟩)
        have h := hfits field (List.mem_cons_of_mem _ hfield)
        unfold FitsField at h ⊢
        rwa [valuesAt_append, valuesAt_cons, if_neg hne, ← valuesAt_append] at h
      obtain ⟨given, unknown, vs, hgiven, hunknown, hperm, hcovers, hks⟩ := ih hnodup.2 hothers
      obtain ⟨ws, hws, hcovers'⟩ := coversFields_insert key hcovers hi
      refine ⟨(key, v) :: given, unknown, ws, .cons hv hgiven, ?_, hws.trans (hperm.cons _),
        hcovers', nestingFields_le.2 fun w hw => ?_⟩
      · refine unknown_cons hunknown hperm hcovers fun g hg => ?_
        exact (List.mem_append.1 hg).elim (hbefore g) (hafter g)
      · rcases List.mem_cons.1 (hws.mem_iff.1 hw) with rfl | hmem
        · exact hk
        · exact nestingFields_le.1 hks w hmem
    · obtain ⟨given, unknown, vs, hgiven, hunknown, hperm, hcovers, hk⟩ :=
        ih hnodup.2 fun field hfield => hfits field (List.mem_cons_of_mem _ hfield)
      cases hform
      exact ⟨given, unknown, vs, .leftOut hgiven,
        unknown_cons hunknown hperm hcovers (valuesAt_eq_nil.1 hvalues), hperm, hcovers, hk⟩

/-- A record fits when its fields do, in order or by their names. -/
theorem fits_record {fields : List (String × Form)} (hnodup : (fields.map Prod.fst).Nodup) :
    (record fields).Fits room j ↔ ∃ k, room = k + 1 ∧
      ((∃ is, j = .array is ∧
          List.Forall₂ (fun f i => f.Fits k i) (fields.map Prod.snd) is) ∨
        ∃ gs, j = .object gs ∧ ∀ field ∈ fields, FitsField k field gs) := by
  constructor
  · rintro ⟨_, h, hcovers, hroom⟩
    cases h with
    | inOrder h =>
      obtain ⟨is, rfl, his⟩ := hcovers
      simp only [nesting] at hroom
      exact ⟨room - 1, by omega, .inl ⟨is, rfl, fits_items.1 ⟨_, h, his, by omega⟩⟩⟩
    | byName h hunknown hperm =>
      obtain ⟨gs, rfl, hgs⟩ := hcovers
      simp only [nesting] at hroom
      exact ⟨room - 1, by omega, .inr ⟨gs, rfl, fun field hfield => fitsField_of_admits hnodup h
        (fun u hu => (hunknown u hu).1) hperm hgs (by omega) hfield⟩⟩
  · rintro ⟨k, rfl, ⟨is, rfl, h⟩ | ⟨gs, rfl, h⟩⟩
    · obtain ⟨vs, hvs, his, hk⟩ := fits_items.2 h
      exact ⟨.array vs, .inOrder hvs, ⟨is, rfl, his⟩, Nat.succ_le_succ hk⟩
    · obtain ⟨given, unknown, vs, hgiven, hunknown, hperm, hgs, hk⟩ := admits_of_fitsField hnodup h
      exact ⟨.object vs, .byName hgiven hunknown hperm, ⟨gs, rfl, hgs⟩, Nat.succ_le_succ hk⟩

end

end Form

end Transact.Json
