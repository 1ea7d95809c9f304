import Transact.Proofs.Composition
import Transact.Proofs.Text.Cut

/-!
# Correlated joins

What the correlation of joined text does, said without its searches. `FirstJoin` is the first join
of a text with a name in brackets, and `Correlates` relates a text to the text with the alias.

* `joinedTable?_eq_some_iff`, `correlate?_eq_some_iff`: the searches find what they look for.
* `Source.correlated_correlated`: a correlated source is left alone.
* `correlateSliced_eq`: the same text comes from offsets in bytes, none of which is inside a
  character or outside of the text.
* `SelectBody.correlateJoins_narrow`: what becomes of a select.
-/

set_option autoImplicit false

namespace Transact

open Text

/-! ## The table that is joined -/

/-- The text has a join with this name in brackets. -/
structure JoinsAt (text before name after : List Char) : Prop where
  eq : text = before ++ ("JOIN [".toList ++ (name ++ ']' :: after))
  nonempty : name ≠ []
  whole : ']' ∉ name

/-- It is the first such join. -/
structure FirstJoin (text before name after : List Char) : Prop extends
    JoinsAt text before name after where
  least : ∀ {b n a : List Char}, JoinsAt text b n a → before.length ≤ b.length

section

variable {text before name after : List Char}

/-- A join right in front is seen. -/
theorem joinedHere?_eq_some_iff :
    joinedHere? text = some name ↔ ∃ after, JoinsAt text [] name after := by
  constructor
  · intro h
    dsimp only [joinedHere?] at h
    split at h
    case isFalse => cases h
    case isTrue hkeyword =>
      split at h
      case isTrue => cases h
      case isFalse hname =>
        obtain ⟨rest, rfl⟩ := List.isPrefixOf_iff_prefix.1 hkeyword
        rw [List.drop_left] at h hname
        rw [Bool.or_eq_true, not_or, List.isEmpty_iff, List.isEmpty_iff] at hname
        obtain ⟨after, hrest⟩ := exists_close hname.2
        obtain rfl := Option.some.inj h
        refine ⟨after, congrArg ("JOIN [".toList ++ ·) hrest, hname.1, ?_⟩
        intro hmem
        exact absurd (List.mem_takeWhile_imp hmem) (by decide)
  · rintro ⟨after, hat⟩
    have hkeyword : "JOIN [".toList.isPrefixOf text = true :=
      List.isPrefixOf_iff_prefix.2 ⟨name ++ ']' :: after, hat.eq.symm⟩
    have hrest : text.drop "JOIN [".toList.length = name ++ ']' :: after := by
      rw [hat.eq, List.nil_append, List.drop_left]
    dsimp only [joinedHere?]
    rw [if_pos hkeyword, hrest, takeWhile_close hat.whole, dropWhile_close hat.whole,
      if_neg (by simp [hat.nonempty])]

theorem JoinsAt.cons (c : Char) (h : JoinsAt text before name after) :
    JoinsAt (c :: text) (c :: before) name after :=
  { h with eq := by rw [h.eq]; rfl }

theorem JoinsAt.of_cons {c d : Char} (h : JoinsAt (c :: text) (d :: before) name after) :
    JoinsAt text before name after :=
  { h with eq := (List.cons.inj h.eq).2 }

theorem joinedTable?_eq_none : ∀ {text : List Char}, joinedTable? text = none →
    ∀ {before name after : List Char}, ¬ JoinsAt text before name after
  | [], _, before, name, after, hat => by
    have := congrArg List.length hat.eq
    simp at this
  | c :: cs, h, before, name, after, hat => by
    rw [joinedTable?] at h
    split at h
    case h_1 => cases h
    case h_2 hhere =>
      cases before with
      | nil =>
        rw [joinedHere?_eq_some_iff.2 ⟨after, hat⟩] at hhere
        cases hhere
      | cons d before => exact joinedTable?_eq_none h hat.of_cons

theorem exists_firstJoin : ∀ {text : List Char}, joinedTable? text = some name →
    ∃ before after, FirstJoin text before name after
  | [], h => by cases h
  | c :: cs, h => by
    rw [joinedTable?] at h
    split at h
    case h_1 found hhere =>
      obtain rfl := Option.some.inj h
      obtain ⟨after, hat⟩ := joinedHere?_eq_some_iff.1 hhere
      exact ⟨[], after, hat, fun _ => Nat.zero_le _⟩
    case h_2 hhere =>
      obtain ⟨before, after, hfirst⟩ := exists_firstJoin h
      refine ⟨c :: before, after, hfirst.toJoinsAt.cons c, fun {b n a} hat => ?_⟩
      cases b with
      | nil =>
        rw [joinedHere?_eq_some_iff.2 ⟨a, hat⟩] at hhere
        cases hhere
      | cons d b => exact Nat.succ_le_succ (hfirst.least hat.of_cons)

theorem FirstJoin.name_unique {before' name' after' : List Char}
    (h : FirstJoin text before name after) (h' : FirstJoin text before' name' after') :
    name = name' := by
  have hlength : before.length = before'.length :=
    Nat.le_antisymm (h.least h'.toJoinsAt) (h'.least h.toJoinsAt)
  obtain ⟨-, hrest⟩ := List.append_inj (h.eq.symm.trans h'.eq) hlength
  have hnames := congrArg (List.takeWhile (· != ']')) (List.append_cancel_left hrest)
  rwa [takeWhile_close h.whole, takeWhile_close h'.whole] at hnames

/-- **The table that is joined** is the one that the first join with a name in brackets names. -/
theorem joinedTable?_eq_some_iff :
    joinedTable? text = some name ↔ ∃ before after, FirstJoin text before name after := by
  refine ⟨exists_firstJoin, ?_⟩
  rintro ⟨before, after, hfirst⟩
  cases hname : joinedTable? text with
  | none => exact absurd hfirst.toJoinsAt (joinedTable?_eq_none hname)
  | some name' =>
    obtain ⟨before', after', hfirst'⟩ := exists_firstJoin hname
    rw [hfirst'.name_unique hfirst]

end

/-! ## The text with the alias -/

/-- The alias of a table that is joined again, in brackets. -/
def secondName (table : List Char) : List Char := "[".toList ++ table ++ "_crltd]".toList

/-- The text joins the table and has no alias for it yet. The fixed text has the alias before its
first `ON`, and the first reference to the table after that is redirected to the alias. -/
structure Correlates (table fragment fixed : List Char) : Prop where
  joins : ∃ before after, FirstJoin fragment before table after
  unaliased : ¬ "AS ".toList ++ secondName table <:+: fragment
  fixes : ∃ before after condition,
    FirstAt " ON ".toList fragment before after ∧
    ReplacesFirst ("[".toList ++ table ++ "].".toList) (secondName table ++ ['.'])
      (" ON ".toList ++ after) condition ∧
    fixed = before ++ " AS ".toList ++ secondName table ++ condition

section

variable {table fragment fixed : List Char}

theorem correlate?_eq (fragment table : List Char) :
    correlate? fragment table =
      if joinedTable? fragment = some table ∧
          occurs ("AS ".toList ++ secondName table) fragment = false then
        (cut " ON ".toList fragment).map fun (before, after) =>
          before ++ " AS ".toList ++ secondName table ++
            replaceFirst ("[".toList ++ table ++ "].".toList) (secondName table ++ ['.'])
              (" ON ".toList ++ after)
      else none := by
  rw [correlate?]
  cases joinedTable? fragment with
  | none => rfl
  | some joined =>
    simp only [Option.bind_eq_bind, Option.bind_some, Option.some.injEq, Bool.and_eq_true,
      decide_eq_true_eq, Bool.not_eq_true']
    refine if_congr Iff.rfl ?_ rfl
    cases cut " ON ".toList fragment <;> rfl

/-- **Correlation** is what its searches and cuts amount to. -/
theorem correlate?_eq_some_iff :
    correlate? fragment table = some fixed ↔ Correlates table fragment fixed := by
  rw [correlate?_eq, Option.ite_none_right_eq_some, joinedTable?_eq_some_iff, ← Bool.not_eq_true,
    occurs_iff, Option.map_eq_some_iff]
  constructor
  · rintro ⟨⟨hjoins, hunaliased⟩, ⟨before, after⟩, hcut, rfl⟩
    exact ⟨hjoins, hunaliased, before, after, _, cut_eq_some_iff.1 hcut, replacesFirst_iff.2 rfl,
      rfl⟩
  · rintro ⟨hjoins, hunaliased, before, after, condition, hcut, hcondition, rfl⟩
    rw [replacesFirst_iff.1 hcondition]
    exact ⟨⟨hjoins, hunaliased⟩, (before, after), cut_eq_some_iff.2 hcut, rfl⟩

/-- The alias stands in the fixed text. -/
theorem Correlates.aliased (h : Correlates table fragment fixed) :
    "AS ".toList ++ secondName table <:+: fixed := by
  obtain ⟨before, after, condition, -, -, rfl⟩ := h.fixes
  exact ⟨before ++ [' '], condition, by simp⟩

/-- The fixed text is left alone. -/
theorem Correlates.correlate?_fixed (h : Correlates table fragment fixed) :
    correlate? fixed table = none := by
  cases hagain : correlate? fixed table with
  | none => rfl
  | some fixed' => exact absurd h.aliased (correlate?_eq_some_iff.1 hagain).unaliased

end

/-! ## Offsets in bytes -/

/-- The same computed from offsets in bytes: the alias is inserted at the first `ON`, and the text
is cut again after the alias. `none` means that one of the offsets is inside a character or outside
of the text. -/
def correlateSliced (fragment table : String) : Option (Option String) :=
  let second := "[" ++ table ++ "_crltd]"
  if joinedTable? fragment.toList = some table.toList ∧
      occurs ("AS " ++ second).toList fragment.toList = false then
    match offset? " ON " fragment with
    | none => some none
    | some on => do
      let aliased ← insertAt? on (" AS " ++ second) fragment
      let (head, condition) ← splitAt? (on + second.utf8ByteSize + 4) aliased
      let condition := replaceFirst ("[" ++ table ++ "].").toList (second ++ ".").toList
        condition.toList
      some (some (head ++ String.ofList condition))
  else some none

/-- **No offset** is inside a character or outside of the text, and the text is the same. -/
theorem correlateSliced_eq (fragment table : String) :
    correlateSliced fragment table =
      some ((correlate? fragment.toList table.toList).map String.ofList) := by
  have hsecond : ("[" ++ table ++ "_crltd]").toList = secondName table.toList := by
    simp [secondName]
  rw [correlate?_eq, correlateSliced]
  generalize "[" ++ table ++ "_crltd]" = second at hsecond ⊢
  simp only [String.toList_append, hsecond]
  split
  case isFalse => rfl
  case isTrue =>
    rw [offset?]
    cases hcut : cut " ON ".toList fragment.toList with
    | none => rfl
    | some found =>
      obtain ⟨before, after⟩ := found
      have hfragment : fragment = String.ofList before ++ (" ON " ++ String.ofList after) := by
        rw [← String.toList_inj, (firstAt_of_cut hcut).eq]
        simp
      -- what stands in front of the second cut is the text before `ON`, the four bytes of ` AS `
      -- and the alias
      have hoffset : (String.ofList before).utf8ByteSize + second.utf8ByteSize + 4 =
          (String.ofList before ++ (" AS " ++ second)).utf8ByteSize := by
        have hfour : " AS ".utf8ByteSize = 4 := rfl
        rw [String.utf8ByteSize_append, String.utf8ByteSize_append, hfour]
        omega
      have hsplit := splitAt?_eq_some_iff (b := " ON " ++ String.ofList after).2 ⟨rfl, hoffset⟩
      rw [hfragment]
      simp only [Option.map_some, insertAt?_append, hsplit, Option.bind_eq_bind, Option.bind_some]
      simp [hsecond, ← String.toList_inj]

/-! ## Sources and selects -/

namespace Source

variable {σ : Type}

/-- A text joined to a left join with a table. -/
def textJoin (left : Source σ) (t : TableRef) (on : Option (Expr σ)) (fragment : String)
    (rest : Option (Expr σ)) : Source σ :=
  .join .fragment (.join .leftOuter left (.table t) on) (.raw fragment) rest

/-- **A correlated source** is left alone, and nothing is said about it. -/
theorem correlated_correlated (s : Source σ) :
    s.correlated.1.correlated = (s.correlated.1, []) := by
  fun_cases correlated s with
  | case1 left t condition fragment rest fixed hfixed text =>
    have hagain : correlate? text.toList t.name.toList = none := by
      rw [String.toList_ofList]
      exact (correlate?_eq_some_iff.1 hfixed).correlate?_fixed
    simp only [correlated, hagain]
  | case2 left t condition fragment rest hfixed => simp only [correlated, hfixed]
  | case3 s hother => rw [correlated.eq_2 _ hother]

theorem correlated_textJoin {left : Source σ} {t : TableRef} {on rest : Option (Expr σ)}
    {fragment : String} {fixed : List Char} (h : Correlates t.name.toList fragment.toList fixed) :
    (textJoin left t on fragment rest).correlated.1 =
      textJoin left t on (String.ofList fixed) rest := by
  rw [textJoin, correlated, correlate?_eq_some_iff.2 h]
  rfl

/-- Only a text joined to a left join with the table that the text joins is changed. -/
theorem exists_correlates_of_correlated_ne {s : Source σ} (h : s.correlated.1 ≠ s) :
    ∃ left t on fragment rest fixed, s = textJoin left t on fragment rest ∧
      Correlates t.name.toList fragment.toList fixed := by
  fun_cases correlated s with
  | case1 left t condition fragment rest fixed hfixed text =>
    exact ⟨left, t, condition, fragment, rest, fixed, rfl, correlate?_eq_some_iff.1 hfixed⟩
  | case2 left t condition fragment rest hfixed => simp [correlated, hfixed] at h
  | case3 s hother => rw [correlated.eq_2 _ hother] at h; exact absurd rfl h

end Source

namespace SelectBody

variable {σ : Type}

/-- The select with the source of its first core correlated. -/
def correlateJoins (s : SelectBody σ) : SelectBody σ :=
  s.modifyCore fun c => { c with source := c.source.map fun source => source.correlated.1 }

/-- What the compiler makes of the first core. -/
theorem head?_correlateJoins {s : SelectBody σ} {c c' : Core σ} (hc : s.cores.head? = some c)
    (hc' : c.correlated.result = .ok c') : s.correlateJoins.cores.head? = some c' := by
  rw [Core.correlated_eq_ok] at hc'
  rw [correlateJoins, modifyCore, List.head?_modifyHead, hc, hc']
  rfl

theorem correlateJoins_correlateJoins (s : SelectBody σ) :
    s.correlateJoins.correlateJoins = s.correlateJoins := by
  obtain ⟨_ | ⟨c, cores⟩, orders, limit, offset, lock⟩ := s
  · rfl
  · simp [correlateJoins, modifyCore, Function.comp_def, Source.correlated_correlated]

theorem correlateJoins_eq_self {s : SelectBody σ}
    (h : ∀ c cores source, s.cores = c :: cores → c.source = some source →
      source.correlated.1 = source) : s.correlateJoins = s := by
  obtain ⟨_ | ⟨⟨projections, _ | source, wheres, groups, having, distinct⟩, cores⟩, orders, limit,
    offset, lock⟩ := s
  · rfl
  · rfl
  · simp [correlateJoins, modifyCore, h _ _ _ rfl rfl]

/-- **The correlation of joined texts** changes nothing when it is repeated. It changes the select
only in the text of a fragment that is joined, in the first core, to a left join with the table that
the text joins first; and there it has the effect of `Correlates`. All the offsets that it takes are
offsets of characters. -/
theorem correlateJoins_narrow (s : SelectBody σ) :
    (∀ c c', s.cores.head? = some c → c.correlated.result = .ok c' →
      s.correlateJoins.cores.head? = some c') ∧
    s.correlateJoins.correlateJoins = s.correlateJoins ∧
    (∀ c cores left t on fragment rest fixed, s.cores = c :: cores →
      c.source = some (.textJoin left t on fragment rest) →
      Correlates t.name.toList fragment.toList fixed →
      s.correlateJoins = { s with cores :=
        { c with source := some (.textJoin left t on (String.ofList fixed) rest) } :: cores }) ∧
    (s.correlateJoins ≠ s → ∃ c cores left t on fragment rest fixed, s.cores = c :: cores ∧
      c.source = some (.textJoin left t on fragment rest) ∧
      Correlates t.name.toList fragment.toList fixed) ∧
    ∀ fragment table, correlateSliced fragment table =
      some ((correlate? fragment.toList table.toList).map String.ofList) := by
  refine ⟨fun c c' => head?_correlateJoins, s.correlateJoins_correlateJoins, ?_, ?_,
    correlateSliced_eq⟩
  · intro c cores left t on fragment rest fixed hcores hsource hfixed
    rw [correlateJoins, modifyCore, hcores, List.modifyHead_cons, hsource, Option.map_some,
      Source.correlated_textJoin hfixed]
  · intro hne
    by_contra hnone
    refine hne (correlateJoins_eq_self fun c cores source hcores hsource => ?_)
    by_contra hchanged
    obtain ⟨left, t, on, fragment, rest, fixed, rfl, hfixed⟩ :=
      Source.exists_correlates_of_correlated_ne hchanged
    exact hnone ⟨c, cores, left, t, on, fragment, rest, fixed, hcores, hsource, hfixed⟩

/-- Sizes of things, joined with a text that joins the sizes again. -/
def sizesAgain (fragment : String) : SelectBody Select :=
  { cores :=
      [{ projections := [.star]
         source := some (.textJoin (.table { name := "things" }) { name := "größe" }
           (some (.named "größe")) fragment none) }] }

theorem correlateJoins_narrow_sizesAgain :
    (sizesAgain "INNER JOIN [größe] ON [größe].[é] = [größe].[id]").correlateJoins =
      sizesAgain "INNER JOIN [größe] AS [größe_crltd] ON [größe_crltd].[é] = [größe].[id]" ∧
    correlateSliced "INNER JOIN [größe] ON [größe].[é] = [größe].[id]" "größe" =
      some (some "INNER JOIN [größe] AS [größe_crltd] ON [größe_crltd].[é] = [größe].[id]") := by
  have hfixed : correlate? "INNER JOIN [größe] ON [größe].[é] = [größe].[id]".toList
      "größe".toList =
        some "INNER JOIN [größe] AS [größe_crltd] ON [größe_crltd].[é] = [größe].[id]".toList := by
    decide +kernel
  obtain ⟨-, -, hchange, -, hsliced⟩ :=
    correlateJoins_narrow (sizesAgain "INNER JOIN [größe] ON [größe].[é] = [größe].[id]")
  constructor
  · have hselect := hchange _ _ _ _ _ _ _ _ rfl rfl (correlate?_eq_some_iff.1 hfixed)
    rwa [String.ofList_toList] at hselect
  · rw [hsliced, hfixed, Option.map_some, String.ofList_toList]

end SelectBody

end Transact
