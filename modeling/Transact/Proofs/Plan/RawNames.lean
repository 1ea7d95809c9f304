import Transact.Plan.Fresh
import Transact.Proofs.Text.Cut

/-!
# Names in raw text

Which names are found in a text that is taken as it stands, said without the scan. `Spells` is a
name as it is spelled, and `BetweenNames` a place where one may begin: no name in brackets reaches
over it, and it is not inside of a word.

* `exists_scanStep`: what one step of the scan can do.
* `ScanStep.betweenNames`: a step leads from one such place to another.
* `ScanStep.reaches`: a step passes none of them over.
* `mem_rawNames_iff`: so the scan finds the names that are spelled at such places.
-/

set_option autoImplicit false

namespace Transact

open Text

/-! ## Places between names -/

/-- A name in brackets opens in the first text and closes in the second. -/
def Spanned (before after : List Char) : Prop :=
  ∃ front inside inside' rest, before = front ++ '[' :: inside ∧ after = inside' ++ ']' :: rest ∧
    ']' ∉ inside ++ inside' ∧ inside ++ inside' ≠ []

/-- The characters of words at the end of the text are digits. -/
def WordFree (before : List Char) : Prop :=
  ∀ front run, before = front ++ run → (∀ c ∈ run, isWordChar c = true) →
    ∀ c ∈ run, isWordStart c = false

theorem isWordChar_of_isWordStart {c : Char} (h : isWordStart c = true) : isWordChar c = true := by
  simp only [isWordStart, isWordChar, Char.isAlphanum, Bool.or_eq_true] at h ⊢
  rcases h with h | h
  · exact .inl (.inl h)
  · exact .inr h

/-- A place between two texts where a name may begin. -/
structure BetweenNames (before after : List Char) : Prop where
  outside : ¬ Spanned before after
  parted : (∀ c ∈ after.head?, isWordChar c = false) ∨ WordFree before

section

variable {before taken after : List Char}

theorem betweenNames_nil (after : List Char) : BetweenNames [] after where
  outside := by
    rintro ⟨front, inside, inside', rest, hbefore, -⟩
    cases front <;> cases hbefore
  parted := .inr fun front run h _ c hc => by
    obtain ⟨-, rfl⟩ := List.append_eq_nil_iff.1 h.symm
    cases hc

/-- Without an opening bracket a text does not open a name. -/
theorem spanned_of_append (hopen : '[' ∉ taken) (h : Spanned (before ++ taken) after) :
    Spanned before (taken ++ after) := by
  obtain ⟨front, inside, inside', rest, hbefore, rfl, hclose, hne⟩ := h
  obtain ⟨front', -, rfl⟩ | ⟨mid, rfl, hmid⟩ := List.append_eq_append_iff.1 hbefore
  · simp at hopen
  · cases mid with
    | nil =>
      obtain rfl : '[' :: inside = taken := hmid
      simp at hopen
    | cons c mid =>
      obtain ⟨rfl, rfl⟩ := List.cons.inj hmid
      refine ⟨front, mid, taken ++ inside', rest, rfl, by simp, ?_, ?_⟩
      · simpa using hclose
      · simpa using hne

theorem BetweenNames.outside_append (h : BetweenNames before (taken ++ after))
    (hopen : '[' ∉ taken) : ¬ Spanned (before ++ taken) after :=
  fun hspan => h.outside (spanned_of_append hopen hspan)

/-- After a closing bracket no name is open. -/
theorem not_spanned_close (before after : List Char) : ¬ Spanned (before ++ [']']) after := by
  rintro ⟨front, inside, inside', rest, hbefore, -, hclose, -⟩
  rcases List.eq_nil_or_concat inside with rfl | ⟨inside, c, rfl⟩
  · have hlast := congrArg List.getLast? hbefore
    simp at hlast
  · have hlast := congrArg List.getLast? hbefore
    rw [List.concat_eq_append, ← List.cons_append, ← List.append_assoc, List.getLast?_concat,
      List.getLast?_concat] at hlast
    obtain rfl := Option.some.inj hlast
    simp at hclose

/-- After a character that is not of a word there is no word. -/
theorem wordFree_concat {c : Char} (hc : isWordChar c = false) (before : List Char) :
    WordFree (before ++ [c]) := by
  intro front run h hrun d hd
  obtain ⟨run, e, rfl⟩ := List.eq_nil_or_concat run |>.resolve_left (List.ne_nil_of_mem hd)
  have hlast := congrArg List.getLast? h
  rw [List.concat_eq_append, ← List.append_assoc, List.getLast?_concat, List.getLast?_concat]
    at hlast
  obtain rfl := Option.some.inj hlast
  rw [hrun c (by simp)] at hc
  cases hc

/-- Characters that begin no word do not end in one, unless they go on with one. -/
theorem wordFree_append (hne : taken ≠ []) (hstart : ∀ c ∈ taken, isWordStart c = false)
    (h : (∀ c ∈ (taken ++ after).head?, isWordChar c = false) ∨ WordFree before) :
    WordFree (before ++ taken) := by
  intro front run heq hrun c hc
  obtain ⟨mid, -, hmid⟩ | ⟨mid, hbefore, rfl⟩ := List.append_eq_append_iff.1 heq
  · exact hstart c (hmid ▸ List.mem_append_right _ hc)
  · rcases List.mem_append.1 hc with hc' | hc'
    · rcases h with hhead | hfree
      · -- the run includes the first of the characters
        obtain ⟨d, taken, rfl⟩ := List.exists_cons_of_ne_nil hne
        have hd := hrun d (List.mem_append_right _ List.mem_cons_self)
        rw [hhead d rfl] at hd
        cases hd
      · exact hfree front mid hbefore (fun d hd => hrun d (List.mem_append_left _ hd)) c hc'
    · exact hstart c hc'

end

/-! ## Steps of the scan -/

/-- A name as it is spelled in front of a text: a whole word, or anything in brackets. -/
inductive Spells : List Char → List Char → List Char → Prop
  | word {c : Char} {w after : List Char} (hc : isWordStart c = true)
      (hw : ∀ d ∈ w, isWordChar d = true) (hafter : ∀ d ∈ after.head?, isWordChar d = false) :
      Spells (c :: w) (c :: w) after
  | bracketed {name after : List Char} (hne : name ≠ []) (hclose : ']' ∉ name) :
      Spells ('[' :: (name ++ [']'])) name after

/-- A step of the scan takes a name, or a character where none begins. -/
inductive ScanStep : List Char → Option (List Char) → List Char → Prop
  | found {taken name after : List Char} (h : Spells taken name after) :
      ScanStep taken (some name) after
  | skip {c : Char} {after : List Char} (hc : isWordStart c = false)
      (hopen : c = '[' → after.head? = some ']' ∨ ']' ∉ after) : ScanStep [c] none after

/-- **One step** of the scan. -/
theorem exists_scanStep (n : Nat) (c : Char) (cs : List Char) :
    ∃ taken name after, c :: cs = taken ++ after ∧ ScanStep taken name after ∧
      rawNamesWithin (n + 1) (c :: cs) =
        (name.map String.ofList).toList ++ rawNamesWithin n after := by
  rw [rawNamesWithin]
  split
  case isTrue hc =>
    subst hc
    dsimp only
    split
    case h_1 d inside e after hinside hafter =>
      obtain ⟨after', hcs⟩ : ∃ after', cs = cs.takeWhile (· != ']') ++ ']' :: after' :=
        exists_close (by simp [hafter])
      have hclose : ']' ∉ cs.takeWhile (· != ']') := fun h =>
        absurd (List.mem_takeWhile_imp h) (by decide)
      obtain ⟨rfl, rfl⟩ : e = ']' ∧ after = after' := by
        rw [hcs, dropWhile_close hclose] at hafter
        exact List.cons.inj hafter.symm
      refine ⟨'[' :: (cs.takeWhile (· != ']') ++ [']']), _, after, ?_,
        .found (.bracketed (by simp [hinside]) hclose), rfl⟩
      nth_rewrite 1 [hcs]
      simp
    case h_2 hnone =>
      refine ⟨['['], none, cs, rfl, .skip (by decide) fun _ => ?_, rfl⟩
      by_contra hboth
      obtain ⟨hhead, hmem⟩ := not_or.1 hboth
      obtain ⟨name, after, rfl, hclose⟩ := List.eq_append_cons_of_mem (not_not.1 hmem)
      cases name with
      | nil => exact hhead rfl
      | cons d name => exact hnone _ _ _ _ (takeWhile_close hclose _) (dropWhile_close hclose _)
  case isFalse hc =>
  split
  case isTrue hstart =>
    refine ⟨c :: cs.takeWhile isWordChar, _, cs.dropWhile isWordChar, by simp,
      .found (.word hstart (fun d hd => List.mem_takeWhile_imp hd) ?_), rfl⟩
    exact head?_dropWhile_eq_false cs
  case isFalse hstart =>
    exact ⟨[c], none, cs, rfl, .skip (by simpa using hstart) (absurd · hc), rfl⟩

section

variable {before taken after : List Char} {name : Option (List Char)}

theorem Spells.ne_nil {name' : List Char} (h : Spells taken name' after) : taken ≠ [] := by
  cases h <;> exact List.cons_ne_nil _ _

theorem ScanStep.taken_ne_nil (h : ScanStep taken name after) : taken ≠ [] := by
  cases h with
  | found h => exact h.ne_nil
  | skip => exact List.cons_ne_nil _ _

/-- **A step leads** from one place between names to another. -/
theorem ScanStep.betweenNames (h : ScanStep taken name after)
    (hplace : BetweenNames before (taken ++ after)) : BetweenNames (before ++ taken) after := by
  cases h with
  | found h =>
    cases h with
    | word hc hw hafter =>
      refine ⟨hplace.outside_append fun hopen => ?_, .inl hafter⟩
      rcases List.mem_cons.1 hopen with rfl | hopen
      · cases hc
      · exact absurd (hw _ hopen) (by decide)
    | bracketed =>
      rw [← List.cons_append, ← List.append_assoc]
      exact ⟨not_spanned_close _ _, .inr (wordFree_concat (by decide) _)⟩
  | @skip c after hc hopen =>
    refine ⟨fun hspan => ?_, .inr (wordFree_append (by simp) (by simpa using hc) hplace.parted)⟩
    by_cases hc' : c = '['
    · subst hc'
      -- a bracket that closes at once, or never, opens no name
      obtain ⟨front, inside, inside', rest, hbefore, rfl, hclose, hne⟩ := hspan
      rcases hopen rfl with hhead | hnone
      · obtain rfl : inside' = [] := by
          cases inside' with
          | nil => rfl
          | cons d inside' =>
            obtain rfl := Option.some.inj hhead
            simp at hclose
        rcases List.eq_nil_or_concat inside with rfl | ⟨inside, d, rfl⟩
        · exact hne rfl
        · rw [List.concat_eq_append, ← List.cons_append, ← List.append_assoc] at hbefore
          obtain ⟨rfl, hd⟩ := List.append_inj' hbefore rfl
          refine hplace.outside ⟨front, inside, ['['], rest, rfl, rfl, ?_, by simp⟩
          simpa using fun h => hclose (by simp [h])
      · simp at hnone
    · exact hplace.outside_append (by simpa using Ne.symm hc') hspan

/-- A place inside of a spelled name is not between names. -/
theorem Spells.not_betweenNames {front back name' : List Char}
    (h : Spells (front ++ back) name' after) (hfront : front ≠ []) (hback : back ≠ []) :
    ¬ BetweenNames (before ++ front) (back ++ after) := by
  intro hplace
  obtain ⟨c, front, rfl⟩ := List.exists_cons_of_ne_nil hfront
  rw [List.cons_append] at h
  generalize htail : front ++ back = tail at h
  cases h with
  | word hc hw _ =>
    subst htail
    obtain ⟨d, back, rfl⟩ := List.exists_cons_of_ne_nil hback
    have hfree : WordFree (before ++ c :: front) := by
      refine hplace.parted.resolve_left fun hhead => ?_
      have hd := hw d (by simp)
      rw [hhead d rfl] at hd
      cases hd
    have hc' := hfree before (c :: front) rfl (List.forall_mem_cons.2
      ⟨isWordChar_of_isWordStart hc, fun d hd => hw d (by simp [hd])⟩) c List.mem_cons_self
    rw [hc] at hc'
    cases hc'
  | bracketed hne hclose =>
    obtain ⟨back, d, rfl⟩ := (List.eq_nil_or_concat back).resolve_left hback
    rw [List.concat_eq_append, ← List.append_assoc] at htail
    obtain ⟨rfl, hd⟩ := List.append_inj' htail rfl
    obtain rfl := List.singleton_inj.1 hd
    exact hplace.outside ⟨before, front, back, after, rfl, by simp, hclose, hne⟩

/-- **A step passes over** no place between names. -/
theorem ScanStep.reaches {skipped rest : List Char} (h : ScanStep taken name after)
    (heq : taken ++ after = skipped ++ rest) (hne : skipped ≠ [])
    (hplace : BetweenNames (before ++ skipped) rest) :
    ∃ skipped', skipped = taken ++ skipped' ∧ after = skipped' ++ rest := by
  obtain hpassed | ⟨mid, rfl, rfl⟩ := List.append_eq_append_iff.1 heq
  · exact hpassed
  by_cases hmid : mid = []
  · exact ⟨[], by simp [hmid]⟩
  generalize htaken : skipped ++ mid = taken at h
  cases h with
  | found h =>
    rw [← htaken] at h
    exact absurd hplace (h.not_betweenNames hne hmid)
  | skip hc hopen =>
    have hlength := congrArg List.length htaken
    rw [List.length_append, List.length_singleton] at hlength
    have := List.length_pos_iff.2 hne
    have := List.length_pos_iff.2 hmid
    omega

/-- The text determines the name that is spelled in front of it. -/
theorem Spells.name_eq {spelling name' : List Char} (h : Spells spelling name' after) :
    name' = if (spelling ++ after).head? = some '[' then
        (spelling ++ after).tail.takeWhile (· != ']')
      else (spelling ++ after).takeWhile isWordChar := by
  cases h with
  | @word c w _ hc hw hafter =>
    have hopen : (c :: w ++ after).head? ≠ some '[' := by
      rintro ⟨⟩
      cases hc
    have hrun : ∀ d ∈ c :: w, isWordChar d = true :=
      List.forall_mem_cons.2 ⟨isWordChar_of_isWordStart hc, hw⟩
    have hend : after.takeWhile isWordChar = [] := by
      cases after with
      | nil => rfl
      | cons d after => rw [List.takeWhile_cons_of_neg (by simp [hafter d rfl])]
    rw [if_neg hopen, List.takeWhile_append_of_pos hrun, hend, List.append_nil]
  | bracketed hne hclose =>
    rw [List.cons_append, if_pos List.head?_cons, List.tail_cons, List.append_assoc]
    exact (takeWhile_close hclose after).symm

/-- A name that is spelled here is found. -/
theorem ScanStep.eq_of_spells {spelling name' rest : List Char} (h : ScanStep taken name after)
    (h' : Spells spelling name' rest) (heq : taken ++ after = spelling ++ rest) :
    name = some name' := by
  cases h with
  | found h => rw [h.name_eq, h'.name_eq, heq]
  | skip hc hopen =>
    cases h' with
    | word hc' =>
      obtain ⟨rfl, -⟩ := List.cons.inj heq
      rw [hc] at hc'
      cases hc'
    | @bracketed name _ hne hclose =>
      obtain ⟨rfl, rfl⟩ := List.cons.inj heq
      obtain ⟨d, name, rfl⟩ := List.exists_cons_of_ne_nil hne
      rcases hopen rfl with hhead | hnone
      · obtain rfl := Option.some.inj hhead
        simp at hclose
      · simp at hnone

end

/-! ## What the scan finds -/

/-- A name stands in a text: it is spelled at a place between names. -/
def Stands (text name : List Char) : Prop :=
  ∃ before spelling after, text = before ++ (spelling ++ after) ∧ Spells spelling name after ∧
    BetweenNames before (spelling ++ after)

/-- The scan of what follows a place between names finds the names that stand there. -/
theorem mem_rawNamesWithin_iff {name : String} : ∀ {n : Nat} {before rest : List Char},
    rest.length ≤ n → BetweenNames before rest →
      (name ∈ rawNamesWithin n rest ↔ ∃ skipped spelling after,
        rest = skipped ++ (spelling ++ after) ∧ Spells spelling name.toList after ∧
          BetweenNames (before ++ skipped) (spelling ++ after))
  | n, before, [], _, _ => by
    have hnone : rawNamesWithin n [] = [] := by cases n <;> rfl
    rw [hnone]
    refine ⟨fun h => absurd h List.not_mem_nil, ?_⟩
    rintro ⟨skipped, spelling, after, hrest, hspells, -⟩
    obtain ⟨-, hrest⟩ := List.append_eq_nil_iff.1 hrest.symm
    exact absurd (List.append_eq_nil_iff.1 hrest).1 hspells.ne_nil
  | 0, _, _ :: _, h, _ => absurd h (by simp)
  | n + 1, before, c :: cs, hlength, hplace => by
    obtain ⟨taken, found, after, heq, hstep, hnames⟩ := exists_scanStep n c cs
    rw [heq] at hplace
    have hshorter : after.length ≤ n := by
      have := congrArg List.length heq
      have := List.length_pos_iff.2 hstep.taken_ne_nil
      simp only [List.length_append, List.length_cons] at *
      omega
    rw [hnames, List.mem_append, mem_rawNamesWithin_iff hshorter (hstep.betweenNames hplace)]
    constructor
    · rintro (hfound | ⟨skipped, spelling, after', rfl, hspells, hplace'⟩)
      · cases hstep with
        | found hspells =>
          obtain rfl := List.mem_singleton.1 hfound
          rw [String.toList_ofList]
          exact ⟨[], taken, after, heq, hspells, by simpa using hplace⟩
        | skip => cases hfound
      · refine ⟨taken ++ skipped, spelling, after', by rw [heq, List.append_assoc], hspells, ?_⟩
        rwa [← List.append_assoc]
    · rintro ⟨skipped, spelling, after', heq', hspells, hplace'⟩
      rw [heq] at heq'
      by_cases hskipped : skipped = []
      · subst hskipped
        rw [hstep.eq_of_spells hspells heq']
        exact .inl (List.mem_singleton.2 String.ofList_toList.symm)
      · obtain ⟨skipped, rfl, rfl⟩ := hstep.reaches heq' hskipped hplace'
        exact .inr ⟨skipped, spelling, after', rfl, hspells, by rwa [List.append_assoc]⟩

/-- **The names in a raw text** are those that stand in it. -/
theorem mem_rawNames_iff {name text : String} :
    name ∈ rawNames text ↔ Stands text.toList name.toList := by
  rw [rawNames, mem_rawNamesWithin_iff String.length_toList.le (betweenNames_nil _)]
  rfl

end Transact
