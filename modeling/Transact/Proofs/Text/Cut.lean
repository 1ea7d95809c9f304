import Mathlib.Data.List.Infix
import Mathlib.Data.List.TakeWhile
import Transact.Text.Basic

/-!
# Cutting texts

What a search for a text finds, said without the search: `FirstAt` is the first occurrence of a text
in another, and `ReplacesFirst` what becomes of it there. A text can also be cut at an offset in
bytes, if that is not inside a character.

* `cut_eq_some_iff`, `cut_eq_none_iff`: the search finds the first occurrence, if there is one.
* `replacesFirst_iff`: so does the replacement.
* `firstAt_of_last`: where a text is found that ends with a character of its own.
* `splitAt?_eq_some_iff`: the offsets that a text can be cut at are those where two texts meet.
-/

set_option autoImplicit false

namespace Transact.Text

/-! ## The first occurrence -/

/-- The text is `before`, `needle` and `after`, and there is no `needle` further in front. -/
structure FirstAt (needle text before after : List Char) : Prop where
  eq : text = before ++ needle ++ after
  least : ∀ {b a : List Char}, text = b ++ needle ++ a → before.length ≤ b.length

/-- The first occurrence of `needle` replaced, if there is one. -/
inductive ReplacesFirst (needle replacement text : List Char) : List Char → Prop
  | found {before after : List Char} : FirstAt needle text before after →
      ReplacesFirst needle replacement text (before ++ replacement ++ after)
  | absent : ¬ needle <:+: text → ReplacesFirst needle replacement text text

section

variable {needle replacement text before after : List Char}

theorem FirstAt.isInfix (h : FirstAt needle text before after) : needle <:+: text :=
  ⟨before, after, h.eq.symm⟩

/-- There is one first occurrence only. -/
theorem FirstAt.unique {before' after' : List Char} (h : FirstAt needle text before after)
    (h' : FirstAt needle text before' after') : before = before' ∧ after = after' := by
  have hlength : before.length = before'.length :=
    Nat.le_antisymm (h.least h'.eq) (h'.least h.eq)
  have heq : before ++ (needle ++ after) = before' ++ (needle ++ after') := by
    rw [← List.append_assoc, ← List.append_assoc, ← h.eq, ← h'.eq]
  obtain ⟨hbefore, hrest⟩ := List.append_inj heq hlength
  exact ⟨hbefore, List.append_cancel_left hrest⟩

theorem firstAt_of_front (h : needle <+: text) :
    FirstAt needle text [] (text.drop needle.length) where
  eq := (List.prefix_iff_eq_append.1 h).symm
  least _ := Nat.zero_le _

theorem FirstAt.cons {c : Char} (hc : ¬ needle <+: c :: text)
    (h : FirstAt needle text before after) : FirstAt needle (c :: text) (c :: before) after where
  eq := by rw [h.eq]; rfl
  least {b a} heq := by
    cases b with
    | nil => exact absurd ⟨a, heq.symm⟩ hc
    | cons d b => exact Nat.succ_le_succ (h.least (List.cons.inj heq).2)

/-- What the search finds is the first occurrence. -/
theorem firstAt_of_cut : ∀ {text before after : List Char},
    cut needle text = some (before, after) → FirstAt needle text before after
  | [], before, after, h => by
    rw [cut] at h
    split at h
    case isTrue hneedle =>
      obtain rfl := List.isEmpty_iff.1 hneedle
      obtain ⟨rfl, rfl⟩ := Prod.mk.inj (Option.some.inj h)
      exact firstAt_of_front List.nil_prefix
    case isFalse => cases h
  | c :: cs, before, after, h => by
    rw [cut] at h
    split at h
    case isTrue hfront =>
      obtain ⟨rfl, rfl⟩ := Prod.mk.inj (Option.some.inj h)
      exact firstAt_of_front (List.isPrefixOf_iff_prefix.1 hfront)
    case isFalse hfront =>
      obtain ⟨⟨before', after'⟩, hcut, heq⟩ := Option.map_eq_some_iff.1 h
      obtain ⟨rfl, rfl⟩ := Prod.mk.inj heq
      exact (firstAt_of_cut hcut).cons fun h => hfront (List.isPrefixOf_iff_prefix.2 h)

theorem cut_eq_none_iff : ∀ {text : List Char}, cut needle text = none ↔ ¬ needle <:+: text
  | [] => by
    rw [cut, List.infix_nil]
    cases needle <;> simp
  | c :: cs => by
    rw [cut, List.infix_cons_iff, ← List.isPrefixOf_iff_prefix]
    split
    case isTrue hfront => simp [hfront]
    case isFalse hfront => rw [Option.map_eq_none_iff, cut_eq_none_iff]; simp [hfront]

/-- **The search finds the first occurrence.** -/
theorem cut_eq_some_iff :
    cut needle text = some (before, after) ↔ FirstAt needle text before after := by
  refine ⟨firstAt_of_cut, fun h => ?_⟩
  cases hcut : cut needle text with
  | none => exact absurd h.isInfix (cut_eq_none_iff.1 hcut)
  | some found =>
    obtain ⟨rfl, rfl⟩ := (firstAt_of_cut hcut).unique h
    rfl

theorem occurs_iff : occurs needle text = true ↔ needle <:+: text := by
  rw [occurs, ← not_iff_not, ← cut_eq_none_iff]
  simp

/-- A text that ends with a character which it has nowhere else is found right where it is written,
if it is not in what stands before. -/
theorem firstAt_of_last {close : Char} {word front gap : List Char} (hlast : close ∉ gap ++ word)
    (hnone : ¬ word ++ [close] <:+: front) (after : List Char) :
    FirstAt (word ++ [close]) (front ++ gap ++ (word ++ [close]) ++ after) (front ++ gap)
      after where
  eq := rfl
  least {b a} heq := by
    by_contra hlt
    rw [Nat.not_le, List.length_append] at hlt
    by_cases hin : (b ++ (word ++ [close])).length ≤ front.length
    · -- it would be in front
      have hprefix : b ++ (word ++ [close]) <+: front := by
        have hfront : front <+: b ++ (word ++ [close]) ++ a := by
          rw [← heq, List.append_assoc, List.append_assoc]
          exact List.prefix_append _ _
        exact List.prefix_of_prefix_length_le (List.prefix_append _ _) hfront hin
      exact hnone (List.IsInfix.trans (List.suffix_append _ _).isInfix hprefix.isInfix)
    · -- its last character would be in the gap or in the text itself
      have hend : (b ++ (word ++ [close]) ++ a)[b.length + word.length]? = some close := by
        rw [show b ++ (word ++ [close]) ++ a = (b ++ word) ++ close :: a by simp,
          List.getElem?_append_right (by simp)]
        simp
      simp only [List.length_append, List.length_singleton, Nat.not_le] at hin
      rw [← heq, show front ++ gap ++ (word ++ [close]) ++ after =
          front ++ ((gap ++ word) ++ close :: after) by simp,
        List.getElem?_append_right (by omega),
        List.getElem?_append_left (by rw [List.length_append]; omega)] at hend
      exact hlast (List.mem_of_getElem? hend)

/-- **The first occurrence** is what is replaced. -/
theorem replacesFirst_iff {text' : List Char} :
    ReplacesFirst needle replacement text text' ↔ text' = replaceFirst needle replacement text := by
  constructor
  · rintro (h | h)
    · rw [replaceFirst, cut_eq_some_iff.2 h]
    · rw [replaceFirst, cut_eq_none_iff.2 h]
  · rintro rfl
    rw [replaceFirst]
    split
    case h_1 hcut => exact .found (firstAt_of_cut hcut)
    case h_2 hcut => exact .absent (cut_eq_none_iff.1 hcut)

end

/-! ## Runs of characters -/

/-- A run of characters ends in front of one that is not of it. -/
theorem head?_dropWhile_eq_false {p : Char → Bool} (cs : List Char) :
    ∀ d ∈ (cs.dropWhile p).head?, p d = false := by
  intro d hd
  have hne : cs.dropWhile p ≠ [] := by
    intro hnil
    rw [hnil] at hd
    cases hd
  have hhead := List.head_dropWhile_not p hne
  rw [List.head?_eq_some_head hne] at hd
  rwa [Option.mem_some_iff.1 hd] at hhead

/-! ## Closing brackets -/

section

variable {name : List Char}

theorem takeWhile_close (h : ']' ∉ name) (after : List Char) :
    (name ++ ']' :: after).takeWhile (· != ']') = name := by
  have hname : ∀ c ∈ name, (c != ']') = true := by
    intro c hc
    exact bne_iff_ne.2 fun he => h (he ▸ hc)
  rw [List.takeWhile_append_of_pos hname, List.takeWhile_cons_of_neg (by decide), List.append_nil]

theorem dropWhile_close (h : ']' ∉ name) (after : List Char) :
    (name ++ ']' :: after).dropWhile (· != ']') = ']' :: after := by
  have hname : ∀ c ∈ name, (c != ']') = true := by
    intro c hc
    exact bne_iff_ne.2 fun he => h (he ▸ hc)
  rw [List.dropWhile_append_of_pos hname, List.dropWhile_cons_of_neg (by decide)]

theorem exists_close {cs : List Char} (h : cs.dropWhile (· != ']') ≠ []) :
    ∃ after, cs = cs.takeWhile (· != ']') ++ ']' :: after := by
  obtain ⟨c, after, hafter⟩ := List.exists_cons_of_ne_nil h
  have hclose : c = ']' := by
    have hhead := List.head_dropWhile_not (· != ']') h
    simpa [hafter] using hhead
  refine ⟨after, ?_⟩
  rw [hclose] at hafter
  rw [← hafter, List.takeWhile_append_dropWhile]

end

/-! ## Offsets in bytes -/

/-- The two parts of a text at an offset in bytes; nothing when the offset is inside a character or
outside of the text. -/
def splitAt? (offset : Nat) (text : String) : Option (String × String) :=
  if h : String.Pos.Raw.isValid text ⟨offset⟩ = true then
    let p := text.pos ⟨offset⟩ (String.Pos.Raw.isValid_eq_true_iff.1 h)
    some ((text.sliceTo p).copy, (text.sliceFrom p).copy)
  else none

/-- The text with another one inserted at an offset in bytes. -/
def insertAt? (offset : Nat) (inserted text : String) : Option String :=
  (splitAt? offset text).map fun (before, after) => before ++ inserted ++ after

/-- The offset in bytes of the first occurrence of `needle`. -/
def offset? (needle text : String) : Option Nat :=
  (cut needle.toList text.toList).map fun (before, _) => (String.ofList before).utf8ByteSize

/-- **A text is cut** where two texts meet, and nowhere else. -/
theorem splitAt?_eq_some_iff {offset : Nat} {text a b : String} :
    splitAt? offset text = some (a, b) ↔ text = a ++ b ∧ offset = a.utf8ByteSize := by
  constructor
  · intro h
    rw [splitAt?] at h
    split at h
    case isTrue hvalid =>
      have hsplits := (text.pos ⟨offset⟩ (String.Pos.Raw.isValid_eq_true_iff.1 hvalid)).splits
      obtain ⟨rfl, rfl⟩ := Prod.mk.inj (Option.some.inj h)
      exact ⟨hsplits.eq_append, congrArg String.Pos.Raw.byteIdx hsplits.offset_eq_rawEndPos⟩
    case isFalse => cases h
  · rintro ⟨rfl, rfl⟩
    have hvalid : String.Pos.Raw.isValid (a ++ b) ⟨a.utf8ByteSize⟩ = true :=
      String.Pos.Raw.isValid_eq_true_iff.2
        (String.Pos.Raw.isValid_iff_exists_append.2 ⟨a, b, rfl, rfl⟩)
    have hsplits : ((a ++ b).pos ⟨a.utf8ByteSize⟩
        (String.Pos.Raw.isValid_eq_true_iff.1 hvalid)).Splits a b := ⟨rfl, rfl⟩
    rw [splitAt?, dif_pos hvalid]
    simp only [hsplits.copy_sliceTo_eq, hsplits.copy_sliceFrom_eq]

theorem insertAt?_append (a b inserted : String) :
    insertAt? a.utf8ByteSize inserted (a ++ b) = some (a ++ inserted ++ b) := by
  rw [insertAt?, splitAt?_eq_some_iff.2 ⟨rfl, rfl⟩]
  rfl

end Transact.Text
