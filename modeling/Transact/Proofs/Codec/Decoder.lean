import Transact.Codec.Encode
import Transact.Json.Decoder
import Transact.Proofs.Json.RoundTrip

/-!
# Decoders that give back what was encoded

A decoder is told how many more brackets may be opened. What is wanted of it is that it gives back
the encoded value when the brackets of the encoding fit, and otherwise reports a malformed text and
nothing else. `Decoder.Returns` says so of one value, and there is a lemma for every way of building
decoders:

* `Decoder.returns_list`, `returns_pair`, `returns_nullable`: arrays, pairs and absent values.
* `Decoder.returns_variant`, `returns_name`: variants with a payload and by their name alone.
* `Record.Reads.returns`: records, field by field. All errors of a record are collected, so each of
  them has to be the malformed one.
-/

set_option autoImplicit false

namespace Transact.Json

open Number

/-! ## Nesting -/

theorem nestingFields_append (fields more : List (String × Json)) :
    nestingFields (fields ++ more) = max (nestingFields fields) (nestingFields more) := by
  induction fields with
  | nil => simp [nestingFields]
  | cons field fields ih =>
    obtain ⟨name, value⟩ := field
    rw [List.cons_append, nestingFields, nestingFields, ih, Nat.max_assoc]

namespace Decoder

variable {α β : Type}

/-- From `j` the decoder gives `a` when all brackets of `j` may be opened, and reports a malformed
text otherwise. -/
def Returns (d : Decoder α) (room : Nat) (j : Json) (a : α) : Prop :=
  d room j = if j.nesting ≤ room then .ok a else .error .malformed

theorem returns_map {d : Decoder α} {room : Nat} {j : Json} {a : α} (f : α → β)
    (h : d.Returns room j a) : (d.map f).Returns room j (f a) := by
  unfold Returns at h ⊢
  rw [Decoder.map, h]
  split <;> rfl

/-! ## Single values -/

theorem returns_of_leaf {d : Decoder α} {room : Nat} {j : Json} {a : α} (hj : j.nesting = 0)
    (h : d room j = .ok a) : d.Returns room j a := by
  rw [Returns, h, hj, if_pos (Nat.zero_le room)]

theorem returns_string (room : Nat) (s : String) : string.Returns room (.string s) s :=
  returns_of_leaf rfl rfl

theorem returns_bool (room : Nat) (b : Bool) : bool.Returns room (.bool b) b :=
  returns_of_leaf rfl rfl

theorem returns_float (room : Nat) (x : Binary64) : float.Returns room (.float x) x :=
  returns_of_leaf rfl rfl

theorem returns_int64 (room : Nat) (i : Int64) : int64.Returns room (.integer i.toInt) i := by
  have hlow : minInt64 ≤ i.toInt := i.minValue_le_toInt
  have hhigh : i.toInt ≤ maxInt64 := i.toInt_le
  refine returns_of_leaf rfl ?_
  simp [int64, Decoder.map, boundedInteger, hlow, hhigh, Except.map]

theorem returns_byte (room : Nat) (b : UInt8) : byte.Returns room (.integer b.toNat) b := by
  have h : (b.toNat : Int) ≤ 255 := by
    have := b.toNat_lt
    omega
  refine returns_of_leaf rfl ?_
  simp [byte, Decoder.map, boundedInteger, Except.map, h]

theorem returns_reading {read : String → Except Calendar.Fault α} {s : String} {a : α}
    (room : Nat) (expected : String) (h : read s = .ok a) :
    (reading read expected).Returns room (.string s) a := by
  refine returns_of_leaf rfl ?_
  rw [reading, h]

/-! ## Arrays -/

/-- No brackets, no array. -/
theorem returns_zero {d : Decoder α} {j : Json} {a : α} (hj : 0 < j.nesting)
    (h : d 0 j = .error .malformed) : d.Returns 0 j a := by
  rw [Returns, h, if_neg (by omega)]

theorem mapM_returns {enc : α → Json} {d : Decoder α} {room : Nat} : ∀ {as : List α},
    (∀ a ∈ as, d.Returns room (enc a) a) →
    (as.map enc).mapM (d room) =
      if nestingItems (as.map enc) ≤ room then .ok as else .error .malformed
  | [], _ => rfl
  | a :: as, h => by
    have ha := h a List.mem_cons_self
    have has := mapM_returns fun b hb => h b (List.mem_cons_of_mem a hb)
    unfold Returns at ha
    rw [List.map_cons, List.mapM_cons, ha, has, nestingItems]
    by_cases hn : (enc a).nesting ≤ room
    · by_cases hns : nestingItems (as.map enc) ≤ room
      · rw [if_pos hn, if_pos hns, if_pos (Nat.max_le.2 ⟨hn, hns⟩)]
        rfl
      · rw [if_pos hn, if_neg hns, if_neg (fun h => hns (Nat.max_le.1 h).2)]
        rfl
    · rw [if_neg hn, if_neg (fun h => hn (Nat.max_le.1 h).1)]
      rfl

theorem returns_list {enc : α → Json} {d : Decoder α} {room : Nat} {as : List α}
    (h : ∀ r < room, ∀ a ∈ as, d.Returns r (enc a) a) :
    (list d).Returns room (.array (as.map enc)) as := by
  cases room with
  | zero => exact returns_zero (Nat.succ_pos _) rfl
  | succ r =>
    rw [Returns, list, mapM_returns (h r (Nat.lt_succ_self r)), nesting]
    simp only [Nat.add_le_add_iff_right]

theorem returns_pair {d : Decoder α} {e : Decoder β} {room : Nat} {i j : Json} {a : α} {b : β}
    (ha : ∀ r < room, d.Returns r i a) (hb : ∀ r < room, e.Returns r j b) :
    (pair d e).Returns room (.array [i, j]) (a, b) := by
  cases room with
  | zero => exact returns_zero (Nat.succ_pos _) rfl
  | succ r =>
    have ha := ha r (Nat.lt_succ_self r)
    have hb := hb r (Nat.lt_succ_self r)
    unfold Returns at ha hb ⊢
    simp only [pair, ha, hb, nesting, nestingItems, Nat.add_le_add_iff_right, Nat.max_le,
      Nat.zero_le, and_true]
    by_cases hi : i.nesting ≤ r
    · by_cases hj : j.nesting ≤ r
      · simp [hi, hj, bind, Except.bind]
      · simp [hi, hj, bind, Except.bind]
    · simp [hi, bind, Except.bind]

/-- A value that may be absent, when no value is written like an absent one. -/
theorem returns_nullable {enc : α → Json} {d : Decoder α} {room : Nat} {o : Option α}
    (hne : ∀ a, enc a ≠ .null) (h : ∀ a, o = some a → d.Returns room (enc a) a) :
    d.nullable.Returns room (.ofOption enc o) o := by
  cases o with
  | none => exact returns_of_leaf rfl rfl
  | some a =>
    have ha := h a rfl
    have hd : d.nullable room (enc a) = (d room (enc a)).map some := by
      unfold nullable
      split
      · rename_i hnull
        exact absurd hnull (hne a)
      · rfl
    unfold Returns at ha ⊢
    rw [ofOption, hd, ha]
    split <;> rfl

/-! ## Variants -/

theorem returns_variant {cases : List (String × Payload α)} {name : String} {p : Payload α}
    {room : Nat} {j : Json} {a : α} (hfind : cases.lookup name = some p)
    (h : ∀ r < room, Returns p.decode r j a) :
    (variants cases).Returns room (.variant name j) a := by
  have hnesting : (Json.variant name j).nesting = j.nesting + 1 := by
    rw [variant, nesting, nestingFields, nestingFields, Nat.max_zero]
  cases room with
  | zero => exact returns_zero (by omega) rfl
  | succ r =>
    have h := h r (Nat.lt_succ_self r)
    unfold Returns at h ⊢
    rw [hnesting]
    simp only [variants, variant, hfind, Nat.add_le_add_iff_right, bind, Except.bind]
    rw [h]
    by_cases hj : j.nesting ≤ r
    · rw [if_pos hj]
      rfl
    · rw [if_neg hj]

theorem returns_name {cases : List (String × Payload α)} {name : String} {a : α}
    (room : Nat) (hfind : cases.lookup name = some (.empty a)) :
    (variants cases).Returns room (.string name) a := by
  refine returns_of_leaf rfl ?_
  simp only [variants, hfind]
  rfl

end Decoder

/-! ## Records -/

namespace Record

variable {α β : Type}

/-- The places and values at which a field of this name stands, with places counted from `k`. -/
def occurrencesFrom (name : String) (k : Nat) (fields : List (String × Json)) : List (Nat × Json) :=
  (fields.zipIdx k).filterMap fun ((key, value), place) =>
    if key = name then some (place, value) else none

theorem occurrencesFrom_cons (name key : String) (k : Nat) (value : Json)
    (fields : List (String × Json)) :
    occurrencesFrom name k ((key, value) :: fields) =
      if key = name then (k, value) :: occurrencesFrom name (k + 1) fields
      else occurrencesFrom name (k + 1) fields := by
  unfold occurrencesFrom
  rw [List.zipIdx_cons, List.filterMap_cons]
  by_cases h : key = name
  · simp [h]
  · simp [h]

theorem occurrencesFrom_eq_nil {name : String} : ∀ {fields : List (String × Json)} {k : Nat},
    name ∉ fields.map Prod.fst → occurrencesFrom name k fields = []
  | [], _, _ => rfl
  | (key, value) :: fields, k, h => by
    rw [List.map_cons, List.mem_cons, not_or] at h
    rw [occurrencesFrom_cons, if_neg (Ne.symm h.1), occurrencesFrom_eq_nil h.2]

/-- A name that stands once among the fields has one occurrence. -/
theorem occurrencesFrom_eq {name : String} {j : Json} : ∀ {fields : List (String × Json)} {k : Nat},
    (fields.map Prod.fst).Nodup → (name, j) ∈ fields →
    ∃ place, occurrencesFrom name k fields = [(place, j)]
  | [], _, _, hmem => (List.not_mem_nil hmem).elim
  | (key, value) :: fields, k, hnodup, hmem => by
    rw [List.map_cons, List.nodup_cons] at hnodup
    rw [occurrencesFrom_cons]
    rcases List.mem_cons.1 hmem with heq | hmem
    · cases heq
      rw [if_pos rfl, occurrencesFrom_eq_nil hnodup.1]
      exact ⟨k, rfl⟩
    · have hname : name ∈ fields.map Prod.fst := List.mem_map.2 ⟨(name, j), hmem, rfl⟩
      have hne : key ≠ name := (ne_of_mem_of_not_mem hname hnodup.1).symm
      rw [if_neg hne]
      exact occurrencesFrom_eq hnodup.2 hmem

/-- All errors are that the text is malformed, and there is one. -/
def Malformed (errors : Placed) : Prop :=
  errors ≠ [] ∧ ∀ error ∈ errors, error.2 = .malformed

/-- Among fields of different names the record reads `a` from `part` when the brackets of `part` may
be opened, and reports malformed text otherwise. -/
def Reads (r : Record α) (room : Nat) (part : List (String × Json)) (a : α) : Prop :=
  ∀ (label : String) (fields : List (String × Json)) (index : Nat), part ⊆ fields →
    (fields.map Prod.fst).Nodup →
    (nestingFields part ≤ room ∧ r.read room label (.byName fields) index = .ok a) ∨
      (room < nestingFields part ∧
        ∃ errors, r.read room label (.byName fields) index = .error errors ∧ Malformed errors)

theorem Reads.pure (a : α) (room : Nat) : Reads (pure a : Record α) room [] a :=
  fun _ _ _ _ _ => .inl ⟨Nat.zero_le room, rfl⟩

theorem Reads.seq {f : Record (α → β)} {x : Record α} {room : Nat}
    {part more : List (String × Json)} {g : α → β} {a : α} (hf : f.Reads room part g)
    (hx : x.Reads room more a) : (f <*> x).Reads room (part ++ more) (g a) := by
  intro label fields index hsub hnodup
  rw [nestingFields_append]
  simp only [Seq.seq]
  rcases hf label fields index (fun _ h => hsub (List.mem_append_left more h)) hnodup with
    ⟨hpart, hf⟩ | ⟨hpart, errors, hf, hne, hbad⟩ <;>
  rcases hx label fields (index + f.size) (fun _ h => hsub (List.mem_append_right part h)) hnodup
    with ⟨hmore, hx⟩ | ⟨hmore, others, hx, hne', hbad'⟩ <;>
  rw [hf, hx]
  · exact .inl ⟨Nat.max_le.2 ⟨hpart, hmore⟩, rfl⟩
  · exact .inr ⟨by omega, others, rfl, hne', hbad'⟩
  · exact .inr ⟨by omega, errors, rfl, hne, hbad⟩
  · refine .inr ⟨by omega, errors ++ others, rfl, by simp [hne], fun error h => ?_⟩
    rcases List.mem_append.1 h with h | h
    · exact hbad error h
    · exact hbad' error h

theorem Reads.map {x : Record α} {room : Nat} {part : List (String × Json)} {a : α} (f : α → β)
    (hx : x.Reads room part a) : (f <$> x).Reads room part (f a) :=
  (Reads.pure f room).seq hx

theorem reads_slot {d : Decoder α} {room : Nat} {j : Json} {a : α} (name : String)
    (absent : Option α) (h : d.Returns room j a) :
    (slot name d absent).Reads room [(name, j)] a := by
  intro label fields index hsub hnodup
  obtain ⟨place, hplace⟩ : ∃ place, occurrences name fields = [(place, j)] :=
    occurrencesFrom_eq hnodup (hsub (List.mem_singleton_self _))
  have hnesting : nestingFields [(name, j)] = j.nesting := Nat.max_zero _
  have hread : (slot name d absent).read room label (.byName fields) index =
      decodeAt d room place j := by
    simp only [slot, hplace]
  unfold Decoder.Returns at h
  rw [hnesting, hread, decodeAt, h]
  by_cases hj : j.nesting ≤ room
  · rw [if_pos hj]
    exact .inl ⟨hj, rfl⟩
  · rw [if_neg hj]
    exact .inr ⟨by omega, [(place, .malformed)], rfl, by simp, by simp⟩

theorem reads_field {d : Decoder α} {room : Nat} {j : Json} {a : α} (name : String)
    (h : d.Returns room j a) : (field name d).Reads room [(name, j)] a :=
  reads_slot name none h

theorem reads_optional {enc : α → Json} {d : Decoder α} {room : Nat} {o : Option α} (name : String)
    (hne : ∀ a, enc a ≠ .null) (h : ∀ a, o = some a → d.Returns room (enc a) a) :
    (optional name d).Reads room [(name, .ofOption enc o)] o :=
  reads_slot name (some none) (Decoder.returns_nullable hne h)

/-- The first of errors that are all alike. -/
theorem first_eq {errors : Placed} (h : Malformed errors) : first errors = .malformed := by
  obtain ⟨hne, hbad⟩ := h
  cases errors with
  | nil => exact absurd rfl hne
  | cons error errors =>
    have hfold : ∀ (rest : Placed) (best : Nat × DecodeError), best.2 = .malformed →
        (∀ e ∈ rest, e.2 = .malformed) →
        (rest.foldl (fun best next => if next.1 < best.1 then next else best) best).2 =
          .malformed := by
      intro rest
      induction rest with
      | nil => exact fun _ h _ => h
      | cons next rest ih =>
        intro best hbest hrest
        rw [List.foldl_cons]
        refine ih _ ?_ fun e he => hrest e (List.mem_cons_of_mem next he)
        split
        · exact hrest next List.mem_cons_self
        · exact hbest
    exact hfold errors error (hbad error List.mem_cons_self)
      fun e he => hbad e (List.mem_cons_of_mem error he)

/-- A record is given back from the object of its fields. -/
theorem Reads.returns {r : Record α} {room : Nat} {fields : List (String × Json)} {a : α}
    (what : String) (hnodup : (fields.map Prod.fst).Nodup) (h : ∀ s < room, r.Reads s fields a) :
    (r.decoder what).Returns room (.object fields) a := by
  cases room with
  | zero => exact Decoder.returns_zero (Nat.succ_pos _) rfl
  | succ s =>
    have hdecoder : r.decoder what (s + 1) (.object fields) =
        settle (r.read s (label what r.size) (.byName fields) 0) := rfl
    rw [Decoder.Returns, hdecoder, nesting]
    simp only [Nat.add_le_add_iff_right]
    rcases h s (Nat.lt_succ_self s) (label what r.size) fields 0 (fun _ h => h) hnodup with
      ⟨hfits, hread⟩ | ⟨hfits, errors, hread, hbad⟩
    · rw [hread, if_pos hfits, settle]
    · rw [hread, if_neg (by omega), settle, first_eq hbad]

end Record

end Transact.Json
