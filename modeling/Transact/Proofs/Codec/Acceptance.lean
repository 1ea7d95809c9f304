import Transact.Json.Decoder
import Transact.Proofs.Codec.Form

/-!
# What decoders accept

A decoder accepts more than what is written. `Decoder.Accepts` says that it gives a value exactly
from the JSON values that fit the form of the value, and there is a lemma for every way of building
decoders:

* `Decoder.accepts_list`, `accepts_pair`, `accepts_nullable`: arrays, pairs and absent values.
* `Decoder.accepts_variants`: variants, from what each case gives and where each value is found.
* `Record.Builds.decoder`: records, field by field.
-/

set_option autoImplicit false

namespace Transact.Json

open Number
open Form (Fits FitsField valuesAt)

namespace Decoder

variable {α β γ : Type}

/-- With so many brackets left, the decoder gives what is built from `b` exactly from the values
that fit the form of `b`. -/
def Builds (d : Decoder α) (room : Nat) (build : β → α) (form : β → Form) : Prop :=
  ∀ (j : Json) (a : α), d room j = .ok a ↔ ∃ b, build b = a ∧ (form b).Fits room j

/-- With so many brackets left, the decoder gives `a` exactly from the values that fit its form. -/
def Accepts (d : Decoder α) (room : Nat) (form : α → Form) : Prop :=
  ∀ (j : Json) (a : α), d room j = .ok a ↔ (form a).Fits room j

theorem map_eq_ok {d : Decoder α} {f : α → β} {room : Nat} {j : Json} {b : β} :
    d.map f room j = .ok b ↔ ∃ a, f a = b ∧ d room j = .ok a := by
  unfold map
  cases d room j <;> simp [Except.map, eq_comm]

theorem Accepts.map {d : Decoder α} {room : Nat} {form : α → Form} (h : d.Accepts room form)
    (f : α → β) : (d.map f).Builds room f form := by
  intro j b
  rw [map_eq_ok]
  exact exists_congr fun a => and_congr_right fun _ => h j a

/-- What is built is all there is, and has the form that it is built from. -/
theorem Builds.accepts {d : Decoder α} {room : Nat} {build : β → α} {form : β → Form}
    (h : d.Builds room build form) {form' : α → Form} (hform : ∀ b, form' (build b) = form b)
    (hbuild : Function.Surjective build) : d.Accepts room form' := by
  intro j a
  rw [h j a]
  constructor
  · rintro ⟨b, rfl, hb⟩
    exact hform b ▸ hb
  · intro ha
    obtain ⟨b, rfl⟩ := hbuild a
    exact ⟨b, rfl, hform b ▸ ha⟩

/-! ## Single values -/

theorem accepts_string (room : Nat) : string.Accepts room .text := by
  intro j s
  rw [Form.fits_text]
  cases j <;> simp [string]

theorem accepts_bool (room : Nat) : bool.Accepts room .flag := by
  intro j b
  rw [Form.fits_flag]
  cases j <;> simp [bool]

theorem accepts_float (room : Nat) : float.Accepts room .float := by
  intro j x
  rw [Form.fits_float]
  cases j <;> simp [float, eq_comm]

theorem boundedInteger_eq_ok {least greatest i : Int} {expected : String} {room : Nat} {j : Json} :
    boundedInteger least greatest expected room j = .ok i ↔
      j = .integer i ∧ least ≤ i ∧ i ≤ greatest := by
  cases j with
  | integer k =>
    by_cases h : least ≤ k ∧ k ≤ greatest
    · simp only [boundedInteger, h, decide_true, Bool.and_self, if_true, Except.ok.injEq,
        Json.integer.injEq]
      grind
    · simp only [boundedInteger, Bool.and_eq_true, decide_eq_true_eq, h, if_false, reduceCtorEq,
        false_iff, Json.integer.injEq]
      grind
  | _ => simp [boundedInteger]

theorem accepts_int64 (room : Nat) : int64.Accepts room fun i => .integer i.toInt := by
  intro j a
  rw [int64, map_eq_ok, Form.fits_integer]
  constructor
  · rintro ⟨i, rfl, h⟩
    obtain ⟨rfl, hlow, hhigh⟩ := boundedInteger_eq_ok.1 h
    rw [Int64.toInt_ofInt_of_le hlow (Int.lt_add_one_of_le hhigh)]
  · rintro rfl
    refine ⟨a.toInt, Int64.ofInt_toInt a, boundedInteger_eq_ok.2 ⟨rfl, ?_, ?_⟩⟩
    · exact a.minValue_le_toInt
    · exact a.toInt_le

theorem accepts_byte (room : Nat) : byte.Accepts room fun b => .integer b.toNat := by
  intro j a
  rw [byte, map_eq_ok, Form.fits_integer]
  constructor
  · rintro ⟨i, rfl, h⟩
    obtain ⟨rfl, hlow, hhigh⟩ := boundedInteger_eq_ok.1 h
    rw [UInt8.toNat_ofNat_of_lt' (by change i.toNat < 256; omega), Int.toNat_of_nonneg hlow]
  · rintro rfl
    have := a.toNat_lt
    exact ⟨a.toNat, by simp, boundedInteger_eq_ok.2 ⟨rfl, by omega, by omega⟩⟩

theorem accepts_reading {read : String → Except Calendar.Fault α} {text : α → String}
    (h : ∀ a, read (text a) = .ok a) (expected : String) (room : Nat) :
    (reading read expected).Accepts room fun a =>
      .reading (text a) (fun s => read s = .ok a) (h a) := by
  intro j a
  rw [Form.fits_reading]
  cases j with
  | string s => cases hread : read s <;> simp [reading, hread]
  | _ => simp [reading]

/-! ## Arrays -/

theorem bind_eq_ok {ε : Type} {x : Except ε α} {f : α → Except ε β} {b : β} :
    x >>= f = .ok b ↔ ∃ a, x = .ok a ∧ f a = .ok b := by
  cases x <;> simp [bind, Except.bind]

theorem mapM_eq_ok {ε : Type} {f : β → Except ε α} {bs : List β} {as : List α} :
    bs.mapM f = .ok as ↔ List.Forall₂ (fun a b => f b = .ok a) as bs := by
  induction bs generalizing as with
  | nil => simp [pure, Except.pure, eq_comm]
  | cons b bs ih =>
    simp only [List.mapM_cons, bind_eq_ok, ih, List.forall₂_cons_right_iff, pure, Except.pure,
      Except.ok.injEq]
    grind

theorem accepts_list {d : Decoder α} {room : Nat} {form : α → Form}
    (h : ∀ k < room, d.Accepts k form) : (list d).Accepts room fun as => .list (as.map form) := by
  intro j as
  rw [Form.fits_list]
  cases j with
  | array items =>
    cases room with
    | zero => simp [list]
    | succ k =>
      have hiff := h k (Nat.lt_succ_self k)
      simp only [list, mapM_eq_ok, hiff _ _, List.forall₂_map_left_iff]
      constructor
      · exact fun hitems => ⟨k, items, rfl, rfl, hitems⟩
      · rintro ⟨_, _, ⟨⟩, ⟨⟩, hitems⟩
        exact hitems
  | _ => simp [list]

theorem accepts_pair {d : Decoder α} {e : Decoder β} {room : Nat} {form : α → Form}
    {form' : β → Form} (hd : ∀ k < room, d.Accepts k form) (he : ∀ k < room, e.Accepts k form') :
    (pair d e).Accepts room fun p => .list [form p.1, form' p.2] := by
  intro j p
  rw [Form.fits_list]
  cases j with
  | array items =>
    cases room with
    | zero => simp [pair]
    | succ k =>
      have hd := hd k (Nat.lt_succ_self k)
      have he := he k (Nat.lt_succ_self k)
      constructor
      · intro h
        rcases items with _ | ⟨x, _ | ⟨y, rest⟩⟩
        · cases h
        · obtain ⟨_, _, h⟩ := bind_eq_ok.1 h
          cases h
        · obtain ⟨a, ha, h⟩ := bind_eq_ok.1 h
          obtain ⟨b, hb, h⟩ := bind_eq_ok.1 h
          cases rest with
          | cons _ _ => cases h
          | nil =>
            cases h
            exact ⟨k, _, rfl, rfl, .cons ((hd x a).1 ha) (.cons ((he y b).1 hb) .nil)⟩
      · rintro ⟨_, _, ⟨⟩, ⟨⟩, h⟩
        cases h with
        | cons hx h =>
          cases h with
          | cons hy h =>
            cases h
            simp [pair, (hd _ _).2 hx, (he _ _).2 hy, bind, Except.bind]
  | _ => simp [pair]

/-- A value that may be absent, when no value is written like an absent one. -/
theorem accepts_nullable {d : Decoder α} {room : Nat} {form : α → Form} (h : d.Accepts room form)
    (hform : ∀ a, form a ≠ .absent) : d.nullable.Accepts room (Form.ofOption form) := by
  intro j o
  cases o with
  | none =>
    rw [Form.ofOption, Form.fits_absent]
    cases j with
    | null => simp [nullable]
    | _ => simp only [nullable, reduceCtorEq, iff_false]; cases d room _ <;> simp [Except.map]
  | some a =>
    by_cases hj : j = .null
    · subst hj
      simpa [nullable, Form.ofOption] using Form.not_fits_null (hform a)
    · have hd : d.nullable room j = (d room j).map some := by
        cases j with
        | null => exact absurd rfl hj
        | _ => rfl
      rw [hd, Form.ofOption, ← h j a]
      cases d room j <;> simp [Except.map]

/-! ## Variants -/

theorem variants_eq_ok {cases : List (String × Payload α)} {room : Nat} {j : Json} {a : α} :
    variants cases room j = .ok a ↔
      (∃ tag, j = .string tag ∧ cases.lookup tag = some (.empty a)) ∨
        ∃ k tag i p, room = k + 1 ∧ j = .object [(tag, i)] ∧ cases.lookup tag = some p ∧
          p.decode k i = .ok a := by
  cases j with
  | string tag =>
    cases hfind : cases.lookup tag with
    | none => simp [variants, hfind, bind, Except.bind]
    | some p => cases p <;> simp [variants, hfind, bind, Except.bind, Payload.bare]
  | object fields =>
    rcases fields with _ | ⟨⟨tag, i⟩, rest⟩
    · cases room <;> simp [variants]
    · cases room with
      | zero => simp [variants]
      | succ k =>
        cases hfind : cases.lookup tag with
        | none =>
          simp only [variants, hfind, bind, Except.bind]
          grind
        | some p =>
          cases hp : p.decode k i with
          | error e =>
            simp only [variants, hfind, bind, Except.bind, hp]
            grind
          | ok a' =>
            simp only [variants, hfind, bind, Except.bind, hp]
            cases rest <;> grind
  | _ => cases room <;> simp [variants]

/-- What the case gives is the variant of this name. -/
def Payload.Sound (p : Payload α) (room : Nat) (tag : String) (form : α → Form) : Prop :=
  match p with
  | .empty a => form a = .name tag
  | .single d | .fields d =>
    ∀ k < room, ∀ j a, d k j = .ok a → ∃ f, form a = .variant tag f ∧ f.Fits k j

/-- The value is found among the cases. -/
def Found (cases : List (String × Payload α)) (room : Nat) (form : α → Form) (a : α) : Prop :=
  (∃ tag, form a = .name tag ∧ cases.lookup tag = some (.empty a)) ∨
    ∃ tag f p, form a = .variant tag f ∧ cases.lookup tag = some p ∧
      ∀ k < room, ∀ j, f.Fits k j → p.decode k j = .ok a

/-- Variants are accepted when every case gives the variant of its name and every value is found. -/
theorem accepts_variants {cases : List (String × Payload α)} {room : Nat} {form : α → Form}
    (hsound : ∀ c ∈ cases, c.2.Sound room c.1 form) (hfound : ∀ a, Found cases room form a) :
    (variants cases).Accepts room form := by
  intro j a
  rw [variants_eq_ok]
  constructor
  · have hmem : ∀ {tag p}, cases.lookup tag = some p → (tag, p) ∈ cases := by
      intro tag p hfind
      obtain ⟨before, after, rfl, -⟩ := List.lookup_eq_some_iff.1 hfind
      simp
    rintro (⟨tag, rfl, hfind⟩ | ⟨k, tag, i, p, rfl, rfl, hfind, hp⟩)
    · have h : form a = .name tag := hsound _ (hmem hfind)
      rw [h, Form.fits_name]
      exact .inl rfl
    · have h := hsound _ (hmem hfind)
      cases p with
      | empty b =>
        cases i with
        | null =>
          cases hp
          have h : form a = .name tag := h
          rw [h, Form.fits_name]
          exact .inr ⟨k, rfl, rfl⟩
        | _ => cases hp
      | single d | fields d =>
        obtain ⟨f, hform, hf⟩ := h k (Nat.lt_succ_self k) i a hp
        rw [hform, Form.fits_variant]
        exact ⟨k, i, rfl, rfl, hf⟩
  · intro h
    rcases hfound a with ⟨tag, hform, hfind⟩ | ⟨tag, f, p, hform, hfind, hdecode⟩
    · rw [hform, Form.fits_name] at h
      rcases h with rfl | ⟨k, rfl, rfl⟩
      · exact .inl ⟨tag, rfl, hfind⟩
      · exact .inr ⟨k, tag, .null, _, rfl, rfl, hfind, rfl⟩
    · rw [hform, Form.fits_variant] at h
      obtain ⟨k, i, rfl, rfl, hf⟩ := h
      exact .inr ⟨k, tag, i, p, rfl, rfl, hfind, hdecode k (Nat.lt_succ_self k) i hf⟩

section

variable {d : Decoder α} {room : Nat} {build : β → α} {payload : β → Form} {form : α → Form}
  {tag : String} (h : ∀ k < room, d.Builds k build payload)

include h

theorem sound_of_builds {p : Payload α} (hform : ∀ b, form (build b) = .variant tag (payload b))
    (hp : p = .single d ∨ p = .fields d) : p.Sound room tag form := by
  have hsound : ∀ k < room, ∀ j a, d k j = .ok a → ∃ f, form a = .variant tag f ∧ f.Fits k j := by
    intro k hk j a hj
    obtain ⟨b, rfl, hb⟩ := (h k hk j a).1 hj
    exact ⟨payload b, hform b, hb⟩
  rcases hp with rfl | rfl <;> exact hsound

theorem found_of_builds {cases : List (String × Payload α)} {p : Payload α} (b : β)
    (hform : form (build b) = .variant tag (payload b)) (hfind : cases.lookup tag = some p)
    (hp : p = .single d ∨ p = .fields d) : Found cases room form (build b) := by
  refine .inr ⟨tag, payload b, p, hform, hfind, fun k hk j hj => ?_⟩
  have hd := (h k hk j (build b)).2 ⟨b, rfl, hj⟩
  rcases hp with rfl | rfl <;> exact hd

end

/-- Variants without payloads. -/
theorem accepts_named {name : α → String} {values : List α} (room : Nat)
    (hfind : ∀ a, (values.map fun b => (name b, Payload.empty b)).lookup (name a) =
      some (.empty a)) : (named name values).Accepts room fun a => .name (name a) := by
  refine accepts_variants ?_ fun a => .inl ⟨name a, rfl, hfind a⟩
  intro c hc
  obtain ⟨a, -, rfl⟩ := List.mem_map.1 hc
  rfl

end Decoder

/-! ## Records -/

namespace Record

variable {α β γ δ : Type}

/-- The items from a place on fit one by one. -/
def FitsFrom (room : Nat) : List Form → List Json → Nat → Prop
  | [], _, _ => True
  | f :: fs, items, index =>
    (∃ i, items[index]? = some i ∧ f.Fits room i) ∧ FitsFrom room fs items (index + 1)

theorem fitsFrom_append {room : Nat} {fs gs : List Form} {items : List Json} {index : Nat} :
    FitsFrom room (fs ++ gs) items index ↔
      FitsFrom room fs items index ∧ FitsFrom room gs items (index + fs.length) := by
  induction fs generalizing index with
  | nil => simp [FitsFrom]
  | cons f fs ih =>
    simp only [List.cons_append, FitsFrom, ih, List.length_cons, and_assoc]
    rw [Nat.add_assoc, Nat.add_comm 1]

/-- All items from a place on fit when there are no more than that. -/
theorem fitsFrom_iff {room : Nat} {fs : List Form} {items : List Json} {index : Nat}
    (hindex : index ≤ items.length) :
    FitsFrom room fs items index ∧ items.length ≤ index + fs.length ↔
      List.Forall₂ (fun f i => f.Fits room i) fs (items.drop index) := by
  induction fs generalizing index with
  | nil => simp [FitsFrom, List.drop_eq_nil_iff]
  | cons f fs ih =>
    rcases Nat.lt_or_ge index items.length with hlt | hge
    · rw [List.drop_eq_getElem_cons hlt, List.forall₂_cons, ← ih hlt, FitsFrom,
        List.getElem?_eq_getElem hlt, List.length_cons]
      simp only [Option.some.injEq, exists_eq_left', and_assoc, Nat.succ_eq_add_one,
        Nat.add_right_comm index 1, Nat.add_assoc]
    · rw [List.drop_eq_nil_of_le hge, FitsFrom, List.getElem?_eq_none hge]
      simp

/-- The record reads what is built from `b` exactly when the fields of `b` fit, in order or by their
names. -/
structure Builds (r : Record α) (room : Nat) (build : β → α) (fields : β → List (String × Form)) :
    Prop where
  size : ∀ b, (fields b).length = r.size
  inOrder : ∀ (label : String) (items : List Json) (index : Nat) (a : α),
    r.read room label (.inOrder items) index = .ok a ↔
      ∃ b, build b = a ∧ FitsFrom room ((fields b).map Prod.snd) items index
  byName : ∀ (label : String) (gs : List (String × Json)) (index : Nat) (a : α),
    r.read room label (.byName gs) index = .ok a ↔
      ∃ b, build b = a ∧ ∀ field ∈ fields b, FitsField room field gs

theorem builds_pure (room : Nat) (a : α) :
    (pure a : Record α).Builds room (fun _ : Unit => a) fun _ => [] where
  size _ := rfl
  inOrder label items index a := by simp [Pure.pure, FitsFrom]
  byName label gs index a := by simp [Pure.pure]

theorem read_seq_eq_ok {f : Record (α → β)} {x : Record α} {room : Nat} {label : String}
    {fields : Fields} {index : Nat} {b : β} : (f <*> x).read room label fields index = .ok b ↔
      ∃ g a, f.read room label fields index = .ok g ∧
        x.read room label fields (index + f.size) = .ok a ∧ g a = b := by
  simp only [Seq.seq]
  cases f.read room label fields index <;>
    cases x.read room label fields (index + f.size) <;> simp

theorem Builds.seq {f : Record (α → β)} {x : Record α} {room : Nat} {build : γ → α → β}
    {build' : δ → α} {fields : γ → List (String × Form)} {fields' : δ → List (String × Form)}
    (hf : f.Builds room build fields) (hx : x.Builds room build' fields') :
    (f <*> x).Builds room (fun p : γ × δ => build p.1 (build' p.2)) fun p =>
      fields p.1 ++ fields' p.2 where
  size p := by
    rw [List.length_append, hf.size, hx.size]
    rfl
  inOrder label items index b := by
    simp only [read_seq_eq_ok, hf.inOrder, hx.inOrder, List.map_append, fitsFrom_append,
      List.length_map, hf.size]
    constructor
    · rintro ⟨_, _, ⟨c, rfl, hc⟩, ⟨e, rfl, he⟩, rfl⟩
      exact ⟨(c, e), rfl, hc, he⟩
    · rintro ⟨⟨c, e⟩, rfl, hc, he⟩
      exact ⟨_, _, ⟨c, rfl, hc⟩, ⟨e, rfl, he⟩, rfl⟩
  byName label gs index b := by
    simp only [read_seq_eq_ok, hf.byName, hx.byName, List.forall_mem_append]
    constructor
    · rintro ⟨_, _, ⟨c, rfl, hc⟩, ⟨e, rfl, he⟩, rfl⟩
      exact ⟨(c, e), rfl, hc, he⟩
    · rintro ⟨⟨c, e⟩, rfl, hc, he⟩
      exact ⟨_, _, ⟨c, rfl, hc⟩, ⟨e, rfl, he⟩, rfl⟩

theorem Builds.map {x : Record α} {room : Nat} {build : γ → α}
    {fields : γ → List (String × Form)} (hx : x.Builds room build fields) (f : α → β) :
    (f <$> x).Builds room (fun p : Unit × γ => f (build p.2)) fun p => fields p.2 :=
  (builds_pure room f).seq hx

theorem decodeAt_eq_ok {d : Decoder α} {room place : Nat} {j : Json} {a : α} :
    decodeAt d room place j = .ok a ↔ d room j = .ok a := by
  unfold decodeAt
  cases d room j <;> simp

theorem occurrences_map (key : String) (gs : List (String × Json)) :
    (occurrences key gs).map Prod.snd = valuesAt key gs := by
  have h : ∀ k : Nat, ((gs.zipIdx k).filterMap fun g =>
      if g.1.1 = key then some (g.2, g.1.2) else none).map Prod.snd = valuesAt key gs := by
    induction gs with
    | nil => intro k; rfl
    | cons g gs ih =>
      intro k
      rw [List.zipIdx_cons, List.filterMap_cons, Form.valuesAt_cons, ← ih (k + 1)]
      by_cases hg : g.1 = key <;> simp [hg]
  exact h 0

/-- One field, that is absent just when the value for absent fields is meant. -/
theorem builds_slot {d : Decoder α} {room : Nat} {form : α → Form} (key : String)
    (absent : Option α) (h : d.Accepts room form)
    (habsent : ∀ a, absent = some a ↔ form a = .absent) :
    (slot key d absent).Builds room id fun a => [(key, form a)] where
  size _ := rfl
  inOrder label items index a := by
    simp only [slot, id, exists_eq_left, List.map_cons, List.map_nil, FitsFrom, and_true]
    cases hitem : items[index]? with
    | none => simp
    | some j => simp [decodeAt_eq_ok, h j a]
  byName label gs index a := by
    simp only [id, exists_eq_left, List.forall_mem_singleton, FitsField, ← occurrences_map]
    simp only [slot]
    rcases hgs : occurrences key gs with _ | ⟨⟨place, j⟩, _ | ⟨⟨again, _⟩, rest⟩⟩
    · cases absent with
      | none => simpa using habsent a
      | some b => simpa using habsent a
    · simp [decodeAt_eq_ok, h j a]
    · simp only [List.map_cons]
      cases decodeAt d room place j <;> simp

theorem builds_field {d : Decoder α} {room : Nat} {form : α → Form} (key : String)
    (h : d.Accepts room form) (hform : ∀ a, form a ≠ .absent) :
    (field key d).Builds room id fun a => [(key, form a)] :=
  builds_slot key none h fun a => by simp [hform a]

theorem builds_optional {d : Decoder α} {room : Nat} {form : α → Form} (key : String)
    (h : d.Accepts room form) (hform : ∀ a, form a ≠ .absent) :
    (optional key d).Builds room id fun o => [(key, Form.ofOption form o)] :=
  builds_slot key (some none) (Decoder.accepts_nullable h hform) fun o => by
    cases o <;> simp [Form.ofOption, hform]

/-- A record is decoded from its fields, in order or by their names. -/
theorem Builds.decoder {r : Record α} {room : Nat} {build : β → α}
    {fields : β → List (String × Form)} (h : ∀ k < room, r.Builds k build fields)
    (hnodup : ∀ b, ((fields b).map Prod.fst).Nodup) (what : String) :
    (r.decoder what).Builds room build fun b => .record (fields b) := by
  intro j a
  simp only [Form.fits_record (hnodup _)]
  cases room with
  | zero => cases j <;> simp [Record.decoder]
  | succ k =>
    have hr := h k (Nat.lt_succ_self k)
    cases j with
    | object gs =>
      have hsettle : r.decoder what (k + 1) (.object gs) = .ok a ↔
          r.read k (label what r.size) (.byName gs) 0 = .ok a := by
        simp only [Record.decoder, settle]
        cases r.read k (label what r.size) (.byName gs) 0 <;> simp
      rw [hsettle, hr.byName]
      simp
    | array items =>
      have hsettle : r.decoder what (k + 1) (.array items) = .ok a ↔
          r.read k (label what r.size) (.inOrder items) 0 = .ok a ∧ items.length ≤ r.size := by
        simp only [Record.decoder, settle]
        cases r.read k (label what r.size) (.inOrder items) 0 with
        | error e => simp [bind, Except.bind]
        | ok b => by_cases hlength : items.length ≤ r.size <;> simp [bind, Except.bind, hlength]
      have hfits : ∀ b, List.Forall₂ (fun f i => f.Fits k i) ((fields b).map Prod.snd) items ↔
          FitsFrom k ((fields b).map Prod.snd) items 0 ∧ items.length ≤ r.size := by
        intro b
        have hiff := @fitsFrom_iff k ((fields b).map Prod.snd) items 0 (Nat.zero_le _)
        rw [List.length_map, hr.size, Nat.zero_add] at hiff
        exact hiff.symm
      rw [hsettle, hr.inOrder]
      constructor
      · rintro ⟨⟨b, rfl, hb⟩, hlength⟩
        exact ⟨b, rfl, k, rfl, .inl ⟨items, rfl, (hfits b).2 ⟨hb, hlength⟩⟩⟩
      · rintro ⟨b, rfl, _, ⟨⟩, ⟨_, ⟨⟩, hitems⟩ | ⟨_, ⟨⟩, _⟩⟩
        exact ⟨⟨b, rfl, ((hfits b).1 hitems).1⟩, ((hfits b).1 hitems).2⟩
    | _ => simp [Record.decoder]

end Record

end Transact.Json
