import Transact.Proofs.CorrelatedJoin
import Transact.Proofs.Sql.Piece
import Transact.Text.Blank

/-!
# The table that gets the alias

The alias of a correlated join is meant for the table that the joined text joins first. It is
written before the first `ON` of the text, wherever the join is. Main statement:
`correlate?_aliases_joined_iff`.

* `ReadsAliased`: how the server reads a table under its alias.
* `AliasesJoined`: the alias is that of the table that is joined.
* `Correlates.firstAt_alias`: the alias is new in the text, so there is no doubt where it stands.
-/

set_option autoImplicit false

namespace Transact

open Text
open Sql (Piece pieces)

/-! ## Tables and their aliases -/

/-- Blanks and comments. -/
def Sql.Piece.isGap : Piece → Bool
  | .comment _ => true
  | .other c => isBlank c
  | _ => false

/-- The join of a table. -/
abbrev joinOf (table : List Char) : List Char := "JOIN [".toList ++ (table ++ [']'])

/-- The alias of a table that is joined again, as it is written after the table. -/
abbrev asSecond (table : List Char) : List Char := " AS ".toList ++ secondName table

/-- The server reads the text as one that ends with the join of the table under its alias, blanks
and comments apart. -/
def ReadsAliased (letter : Char → Bool) (table text : List Char) : Prop :=
  [.bare "JOIN".toList, .enclosed ']' table, .bare "AS".toList,
      .enclosed ']' (table ++ "_crltd".toList)] <:+
    (pieces letter text).filter fun p => !p.isGap

instance (letter : Char → Bool) (table text : List Char) :
    Decidable (ReadsAliased letter table text) := inferInstanceAs (Decidable (_ <:+ _))

/-- The alias stands after the first join of the text, before the first `ON` that follows it, and
it is the alias of that table; up to there the text is the same as before. -/
def AliasesJoined (letter : Char → Bool) (table fragment fixed : List Char) : Prop :=
  ∃ before left right rest condition,
    FirstJoin fragment before table (left ++ right ++ " ON ".toList ++ rest) ∧
    FirstAt " ON ".toList (left ++ right ++ " ON ".toList ++ rest) (left ++ right) rest ∧
    fixed = before ++ joinOf table ++ left ++ asSecond table ++ right ++ condition ∧
    ReadsAliased letter table (before ++ joinOf table ++ left ++ asSecond table)

section

variable {letter : Char → Bool} {table fragment fixed before after : List Char}

theorem FirstJoin.eq_append (h : FirstJoin fragment before table after) :
    fragment = before ++ joinOf table ++ after := by
  rw [h.eq]
  simp [joinOf]

/-- **The alias is new** in the text, so the place where it stands is the first one. -/
theorem Correlates.firstAt_alias (h : Correlates table fragment fixed) {front rest : List Char}
    (hfront : front <+: fragment) (hfixed : fixed = front ++ asSecond table ++ rest) :
    FirstAt ("AS [".toList ++ table ++ "_crltd".toList ++ [']']) fixed (front ++ [' ']) rest := by
  obtain ⟨before, after, hjoin⟩ := h.joins
  have hclose : ']' ∉ [' '] ++ ("AS [".toList ++ table ++ "_crltd".toList) := by
    have := hjoin.whole
    simpa using this
  have hnone : ¬ "AS [".toList ++ table ++ "_crltd".toList ++ [']'] <:+: front := by
    intro hin
    refine h.unaliased (List.IsInfix.trans ?_ hfront.isInfix)
    simpa [secondName] using hin
  have hat := firstAt_of_last hclose hnone rest
  rw [hfixed]
  simpa [asSecond, secondName] using hat

/-- The alias is written before the first `ON` of the whole text. -/
theorem Correlates.exists_front (h : Correlates table fragment fixed) :
    ∃ front after condition, FirstAt " ON ".toList fragment front after ∧
      fixed = front ++ asSecond table ++ condition := by
  obtain ⟨front, after, condition, hon, -, rfl⟩ := h.fixes
  exact ⟨front, after, condition, hon, by simp [asSecond]⟩

/-- An alias of the joined table is in front of the first `ON` of the whole text. -/
theorem Correlates.firstAt_of_aliasesJoined (h : Correlates table fragment fixed)
    (haliases : AliasesJoined letter table fragment fixed) :
    ∃ before gap rest, FirstJoin fragment before table (gap ++ " ON ".toList ++ rest) ∧
      FirstAt " ON ".toList fragment (before ++ joinOf table ++ gap) rest ∧
      ReadsAliased letter table (before ++ joinOf table ++ gap ++ asSecond table) := by
  obtain ⟨before, left, right, rest, condition, hjoin, hnext, hfixed, hreads⟩ := haliases
  obtain ⟨front, after, condition', hon, hfixed'⟩ := h.exists_front
  have hfragment := hjoin.eq_append
  -- both are the first place where the alias stands
  have hfront : before ++ joinOf table ++ left = front := by
    have hleft : before ++ joinOf table ++ left <+: fragment :=
      ⟨right ++ " ON ".toList ++ rest, by rw [hfragment]; simp⟩
    have hfront : front <+: fragment := ⟨" ON ".toList ++ after, by rw [hon.eq]; simp⟩
    rw [List.append_assoc _ right] at hfixed
    obtain ⟨heq, -⟩ := (h.firstAt_alias hleft hfixed).unique (h.firstAt_alias hfront hfixed')
    exact List.append_cancel_right heq
  subst hfront
  -- so the first `ON` after the join is the first one of all
  have hrest : left ++ right ++ " ON ".toList ++ rest = left ++ " ON ".toList ++ after := by
    have := hfragment.symm.trans hon.eq
    simpa using this
  obtain rfl : right = [] := by
    have := hnext.least hrest
    rw [List.length_append] at this
    exact List.length_eq_zero_iff.1 (by omega)
  rw [List.append_nil] at hjoin hrest
  obtain rfl := List.append_cancel_left hrest
  exact ⟨before, left, rest, hjoin, hon, hreads⟩

/-- Where the first `ON` of all follows the join, the alias is that of the joined table. -/
theorem Correlates.aliasesJoined {gap rest : List Char} (h : Correlates table fragment fixed)
    (hjoin : FirstJoin fragment before table (gap ++ " ON ".toList ++ rest))
    (hon : FirstAt " ON ".toList fragment (before ++ joinOf table ++ gap) rest)
    (hreads : ReadsAliased letter table (before ++ joinOf table ++ gap ++ asSecond table)) :
    AliasesJoined letter table fragment fixed := by
  obtain ⟨front, after, condition, hon', hfixed⟩ := h.exists_front
  obtain ⟨rfl, rfl⟩ := hon.unique hon'
  refine ⟨before, gap, [], rest, condition, by simpa using hjoin, ⟨by simp, ?_⟩,
    by simpa using hfixed, hreads⟩
  intro b a heq
  have hat : fragment = before ++ joinOf table ++ b ++ " ON ".toList ++ a := by
    have := hjoin.eq_append
    rw [this]
    simpa using heq
  have := hon.least hat
  simp only [List.length_append, List.length_nil] at this ⊢
  omega

/-- **The alias of a correlated join** is that of the table that the text joins first exactly when
no `ON` comes before that join ends, and nothing but blanks and comments stands between the table
and the next `ON`. -/
theorem correlate?_aliases_joined_iff (letter : Char → Bool) {fragment table fixed : List Char}
    (h : correlate? fragment table = some fixed) :
    AliasesJoined letter table fragment fixed ↔
      ∃ before gap rest, FirstJoin fragment before table (gap ++ " ON ".toList ++ rest) ∧
        FirstAt " ON ".toList fragment (before ++ joinOf table ++ gap) rest ∧
        ReadsAliased letter table (before ++ joinOf table ++ gap ++ asSecond table) := by
  have hcorrelates := correlate?_eq_some_iff.1 h
  refine ⟨hcorrelates.firstAt_of_aliasesJoined, ?_⟩
  rintro ⟨before, gap, rest, hjoin, hon, hreads⟩
  exact hcorrelates.aliasesJoined hjoin hon hreads

end

/-- A text that joins pets again. -/
def petsAgain : String := "JOIN [pets] /* again */ ON [pets].[kind] = [people].[kind]"

theorem correlate?_aliases_joined_petsAgain :
    ∃ fixed, correlate? petsAgain.toList "pets".toList = some fixed ∧
      String.ofList fixed =
        "JOIN [pets] /* again */ AS [pets_crltd] ON [pets_crltd].[kind] = [people].[kind]" ∧
      AliasesJoined (fun _ => false) "pets".toList petsAgain.toList fixed := by
  obtain ⟨fixed, hfixed, htext⟩ : ∃ fixed, correlate? petsAgain.toList "pets".toList = some fixed ∧
      String.ofList fixed =
        "JOIN [pets] /* again */ AS [pets_crltd] ON [pets_crltd].[kind] = [people].[kind]" :=
    ⟨_, rfl, by decide +kernel⟩
  have hjoin : FirstJoin petsAgain.toList [] "pets".toList
      (" /* again */".toList ++ " ON ".toList ++ "[pets].[kind] = [people].[kind]".toList) :=
    ⟨⟨by decide +kernel, by decide, by decide⟩, fun _ => Nat.zero_le _⟩
  have hon : FirstAt " ON ".toList petsAgain.toList
      ([] ++ joinOf "pets".toList ++ " /* again */".toList)
      "[pets].[kind] = [people].[kind]".toList := cut_eq_some_iff.1 (by decide +kernel)
  refine ⟨fixed, hfixed, htext, (correlate?_aliases_joined_iff _ hfixed).2 ?_⟩
  exact ⟨_, _, _, hjoin, hon, by decide +kernel⟩

/-- The text up to the first `ON` decides whose alias it is. -/
theorem not_aliasesJoined {letter : Char → Bool} {table fragment fixed front after : List Char}
    (h : correlate? fragment table = some fixed)
    (hcut : cut " ON ".toList fragment = some (front, after))
    (hreads : ¬ ReadsAliased letter table (front ++ asSecond table)) :
    ¬ AliasesJoined letter table fragment fixed := by
  intro haliases
  obtain ⟨before, gap, rest, -, hon, hreads'⟩ :=
    (correlate?_eq_some_iff.1 h).firstAt_of_aliasesJoined haliases
  obtain ⟨rfl, -⟩ := hon.unique (cut_eq_some_iff.1 hcut)
  exact hreads hreads'

/-- A text that joins toys before it joins pets again. -/
def toysFirst : String :=
  "INNER JOIN toys ON toys.pet = 1 INNER JOIN [pets] ON [pets].[kind] = toys.kind"

/-- A text that joins pets again under a name of its own. -/
def petsRenamed : String := "INNER JOIN [pets] AS [p] ON [p].[kind] = [people].[kind]"

/-- **A condition in front of the join** makes the alias that of another table, and a table that has
an alias already gets a second one. -/
theorem correlate?_aliases_another :
    (∃ fixed, correlate? toysFirst.toList "pets".toList = some fixed ∧
      String.ofList fixed = "INNER JOIN toys AS [pets_crltd] ON toys.pet = 1 " ++
        "INNER JOIN [pets] ON [pets_crltd].[kind] = toys.kind" ∧
      ¬ AliasesJoined (fun _ => false) "pets".toList toysFirst.toList fixed) ∧
    ∃ fixed, correlate? petsRenamed.toList "pets".toList = some fixed ∧
      String.ofList fixed =
        "INNER JOIN [pets] AS [p] AS [pets_crltd] ON [p].[kind] = [people].[kind]" ∧
      ¬ AliasesJoined (fun _ => false) "pets".toList petsRenamed.toList fixed :=
  ⟨⟨_, rfl, by decide +kernel, not_aliasesJoined rfl rfl (by decide +kernel)⟩,
    ⟨_, rfl, by decide +kernel, not_aliasesJoined rfl rfl (by decide +kernel)⟩⟩

end Transact
