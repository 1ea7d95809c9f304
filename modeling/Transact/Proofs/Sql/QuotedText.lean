import Mathlib.Data.List.Chain
import Transact.Proofs.Sql.Enclosed
import Transact.Sql.Literal

/-!
# Quoted text read back

`scanText?` reads a quoted text the way the server does: two apostrophes stand for one, a single one
ends the text, and a backslash is a character like any other.

* `escapeAfter_eq_double_iff`: escaping doubles every apostrophe exactly when none follows a
  backslash or another apostrophe.
* `scanText?_literal_iff`: so these are the texts that are read back.
-/

set_option autoImplicit false

namespace Transact.Sql

open Text

/-! ## Reading -/

/-- The quoted text at the front, national or not, and what follows it. -/
def scanText? (cs : List Char) : Option (String × List Char) :=
  match if cs.head? = some 'N' then cs.tail else cs with
  | [] => none
  | c :: cs =>
    if c = apostrophe then
      (scanEnclosed apostrophe cs).map fun (text, rest) => (String.ofList text, rest)
    else none

/-! ## Escaping -/

/-- Escaping adds no more than doubling does. -/
theorem length_escapeAfter_le (before : Char) (cs : List Char) :
    (escapeAfter before cs).length ≤ (double apostrophe cs).length := by
  fun_induction escapeAfter before cs with
  | case1 => exact Nat.le_refl _
  | case2 cs ih =>
    rw [double_cons_self, List.length_cons, List.length_cons, List.length_cons]
    omega
  | case3 before hb => exact Nat.le_refl _
  | case4 before hb ds ih =>
    rw [double_cons_self, double_cons_self]
    simp only [List.length_cons]
    omega
  | case5 before hb d ds hd ih =>
    rw [double_cons_self]
    simp only [List.length_cons]
    omega
  | case6 before c cs hc ih =>
    rw [double_cons_of_ne hc, List.length_cons, List.length_cons]
    omega

/-- The second character may follow the first in a text that is read back: it is no apostrophe, or
the first is neither an apostrophe nor a backslash. -/
def MayFollow (c d : Char) : Prop := d = apostrophe → c ≠ apostrophe ∧ c ≠ '\\'

/-- **Escaping doubles every apostrophe** exactly when none follows a backslash or another
apostrophe. -/
theorem escapeAfter_eq_double_iff (before : Char) (cs : List Char) :
    escapeAfter before cs = double apostrophe cs ↔
      (before = '\\' → cs.head? ≠ some apostrophe) ∧ cs.IsChain MayFollow := by
  fun_induction escapeAfter before cs with
  | case1 => simp [double]
  | case2 cs ih =>
    -- an apostrophe after a backslash is written once, and what follows cannot make up for it
    have hlen := length_escapeAfter_le '\\' cs
    constructor
    · intro h
      have := congrArg List.length h
      rw [double_cons_self] at this
      simp only [List.length_cons] at this
      omega
    · rintro ⟨h, -⟩
      exact absurd rfl (h rfl)
  | case3 before hb => simp [double, hb]
  | case4 before hb ds ih =>
    have hlen := length_escapeAfter_le apostrophe ds
    constructor
    · intro h
      have := congrArg List.length h
      rw [double_cons_self, double_cons_self] at this
      simp only [List.length_cons] at this
      omega
    · rintro ⟨-, h⟩
      exact absurd rfl ((List.isChain_cons_cons.1 h).1 rfl).1
  | case5 before hb d ds hd ih =>
    rw [double_cons_self, List.cons.injEq, List.cons.injEq, ih, List.isChain_cons_cons]
    constructor
    · rintro ⟨-, -, -, h⟩
      exact ⟨fun h => absurd h hb, fun h => absurd h hd, h⟩
    · rintro ⟨-, -, h⟩
      exact ⟨rfl, rfl, fun h => absurd h (by decide), h⟩
  | case6 before c cs hc ih =>
    rw [double_cons_of_ne hc, List.cons.injEq, ih, List.isChain_cons]
    constructor
    · rintro ⟨-, hhead, h⟩
      refine ⟨fun _ he => hc (Option.some.inj he), fun d hd hda => ⟨hc, fun hb => ?_⟩, h⟩
      exact hhead hb (by rw [← hda]; exact hd)
    · rintro ⟨-, hfollow, h⟩
      exact ⟨rfl, fun hb hhead => (hfollow apostrophe hhead rfl).2 hb, h⟩

/-- No apostrophe of the text follows another one or a backslash. -/
def ApostrophesAlone (text : String) : Prop :=
  ¬ [apostrophe, apostrophe] <:+: text.toList ∧ ¬ ['\\', apostrophe] <:+: text.toList

instance (text : String) : Decidable (ApostrophesAlone text) :=
  inferInstanceAs (Decidable (_ ∧ _))

theorem isChain_mayFollow_iff {text : String} :
    text.toList.IsChain MayFollow ↔ ApostrophesAlone text := by
  rw [List.isChain_iff_forall_rel_of_append_cons_cons, ApostrophesAlone]
  constructor
  · intro h
    refine ⟨?_, ?_⟩
    · rintro ⟨s, t, he⟩
      exact (h (show _ = s ++ apostrophe :: apostrophe :: t by simp [← he]) rfl).1 rfl
    · rintro ⟨s, t, he⟩
      exact (h (show _ = s ++ '\\' :: apostrophe :: t by simp [← he]) rfl).2 rfl
  · rintro ⟨hpair, hback⟩ c d s t he rfl
    refine ⟨?_, ?_⟩
    · rintro rfl
      exact hpair ⟨s, t, by simp [he]⟩
    · rintro rfl
      exact hback ⟨s, t, by simp [he]⟩

/-! ## Constants -/

/-- The types for which a text is written between apostrophes. -/
def quotedTypes : List (Option ColumnType) :=
  [none, some .string, some .narrowString, some .boolean, some .date, some .dateTime, some .time]

theorem literal_string {ty : Option ColumnType} (hty : ty ∈ quotedTypes) (text : String) :
    literal (.string text) ty = if ty = some .narrowString then quoted text else national text := by
  simp only [quotedTypes, List.mem_cons, List.not_mem_nil, or_false] at hty
  rcases hty with rfl | rfl | rfl | rfl | rfl | rfl | rfl <;> rfl

/-- National or not, what is read is what stands between the apostrophes. -/
theorem scanText?_literal {ty : Option ColumnType} (hty : ty ∈ quotedTypes) (text : String)
    (rest : List Char) :
    scanText? ((literal (.string text) ty).toList ++ rest) =
      (scanEnclosed apostrophe
        (escapeAfter (Char.ofNat 0) text.toList ++ apostrophe :: rest)).map
          fun (text, rest) => (String.ofList text, rest) := by
  rw [literal_string hty]
  split
  · simp [quoted, scanText?, apostrophe]
  · simp [national, quoted, scanText?]

/-- The texts that are read back are those whose apostrophes are all doubled. -/
theorem scanText?_eq_some_iff {ty : Option ColumnType} (hty : ty ∈ quotedTypes) (text : String)
    {rest : List Char} (hrest : rest.head? ≠ some apostrophe) :
    scanText? ((literal (.string text) ty).toList ++ rest) = some (text, rest) ↔
      ApostrophesAlone text := by
  rw [scanText?_literal hty]
  constructor
  · intro h
    obtain ⟨⟨text', rest'⟩, hscan, he⟩ := Option.map_eq_some_iff.1 h
    obtain ⟨rfl, rfl⟩ : text' = text.toList ∧ rest' = rest := by
      rw [Prod.mk.injEq] at he
      exact ⟨by rw [← he.1, String.toList_ofList], he.2⟩
    have hbody := List.append_cancel_right (scanEnclosed_eq_some_iff.1 hscan).1
    exact isChain_mayFollow_iff.1 ((escapeAfter_eq_double_iff _ _).1 hbody).2
  · intro h
    have hbody : escapeAfter (Char.ofNat 0) text.toList = double apostrophe text.toList :=
      (escapeAfter_eq_double_iff _ _).2 ⟨fun h => absurd h (by decide), isChain_mayFollow_iff.2 h⟩
    rw [hbody, scanEnclosed_double hrest]
    simp

/-- **A quoted text is read back**, whatever follows it, exactly when no apostrophe in it follows
another one or a backslash; and texts of this kind are never written alike. -/
theorem scanText?_literal_iff {ty : Option ColumnType} (hty : ty ∈ quotedTypes) (text : String) :
    (∀ rest : List Char, rest.head? ≠ some apostrophe →
      (scanText? ((literal (.string text) ty).toList ++ rest) = some (text, rest) ↔
        ApostrophesAlone text)) ∧
    (ApostrophesAlone text → ∀ text', ApostrophesAlone text' →
      literal (.string text) ty = literal (.string text') ty → text = text') := by
  refine ⟨fun rest hrest => scanText?_eq_some_iff hty text hrest, fun h text' h' he => ?_⟩
  have hnil : ([] : List Char).head? ≠ some apostrophe := by simp
  have hscan := (scanText?_eq_some_iff hty text hnil).2 h
  rw [he, (scanText?_eq_some_iff hty text' hnil).2 h'] at hscan
  exact (Prod.mk.inj (Option.some.inj hscan)).1.symm

theorem scanText?_literal_its :
    scanText? ((literal (.string "it's") (some .string)).toList ++ " OR 1=1".toList) =
      some ("it's", " OR 1=1".toList) :=
  ((scanText?_literal_iff (by decide) "it's").1 _ (by decide)).2 (by decide)

/-- An apostrophe after a backslash ends nothing: the text runs on into what follows it, up to the
next apostrophe. And one apostrophe is written like two. -/
theorem scanText?_literal_backslash :
    scanText? ((literal (.string "\\'") none).toList ++ ", N'--'".toList) =
        some ("\\', N", "--'".toList) ∧
      literal (.string "'") none = literal (.string "''") none := by
  decide

end Transact.Sql
