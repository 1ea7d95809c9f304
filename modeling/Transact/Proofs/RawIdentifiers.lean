import Transact.Proofs.Plan.Hygiene
import Transact.Proofs.Plan.RawNames
import Transact.Proofs.Sql.Piece

/-!
# Identifiers in raw text

Raw text is scanned for the names in it, so that the compiler can avoid them. The scan knows names
in brackets but neither texts nor comments, and it takes a name for longer that follows the letters
of a number. Main statement: `Select.raw_identifiers_avoided`.

* `isWord_of_lower`: nothing but words can be mistaken for a name of the compiler.
* `Fresh.candidate_mem_pickAll`: a candidate for a name is chosen when those before it are taken.
* `Sql.Lexes.stands`: in a text whose pieces do not mislead the scan it finds all identifiers.
* `avoidedBySelects_iff`: the texts whose identifiers are all avoided.
-/

set_option autoImplicit false

namespace Transact

open Text

/-! ## Words in lower case -/

namespace Text

/-- The run is the Kelvin sign, or its lower-case letters are characters beyond ASCII. -/
def LowerRun.staysBeyond (r : LowerRun) : Bool :=
  (r.first == 0x212A && r.last == 0x212A) ||
    (128 ≤ r.first + r.shift &&
      (r.last + r.shift < 0xD800 || (0xE000 ≤ r.first + r.shift && r.last + r.shift < 0x110000)))

theorem staysBeyond_lowerRuns : lowerRuns.all LowerRun.staysBeyond = true := by decide +kernel

/-- Only the Kelvin sign has nothing beyond ASCII in its lower case. -/
theorem exists_mem_lowerChar {c : Char} (hc : 128 ≤ c.toNat) (hkelvin : c.toNat ≠ 0x212A) :
    ∃ d ∈ lowerChar c, 128 ≤ d.toNat := by
  rw [lowerChar, if_neg (by omega)]
  split
  · exact ⟨_, List.mem_cons_of_mem _ List.mem_cons_self, by decide⟩
  split
  case h_1 run hrun =>
    refine ⟨_, List.mem_cons_self, ?_⟩
    have hcovers := List.find?_some hrun
    have hbeyond := List.all_eq_true.1 staysBeyond_lowerRuns run (List.mem_of_find?_eq_some hrun)
    simp only [LowerRun.covers, LowerRun.staysBeyond, Bool.and_eq_true, Bool.or_eq_true,
      decide_eq_true_eq, beq_iff_eq] at hcovers hbeyond
    have hvalid : (c.toNat + run.shift).toNat.isValidChar := by
      unfold Nat.isValidChar
      omega
    rw [Char.ofNat, dif_pos hvalid]
    show 128 ≤ (c.toNat + run.shift).toNat
    omega
  case h_2 => exact ⟨c, List.mem_cons_self, hc⟩

end Text

/-- A letter or an underscore, and then letters, digits and underscores. -/
def IsWord (w : List Char) : Prop :=
  ∃ c t, w = c :: t ∧ isWordStart c = true ∧ ∀ d ∈ t, isWordChar d = true

theorem toNat_lt_of_isWordChar {c : Char} (h : isWordChar c = true) : c.toNat < 128 := by
  have hle : ∀ d : Char, c.val ≤ d.val → d.toNat < 128 → c.toNat < 128 := fun _ h h' =>
    Nat.lt_of_le_of_lt (UInt32.le_iff_toNat_le.1 h) h'
  simp only [isWordChar, Char.isAlphanum, Bool.or_eq_true, beq_iff_eq] at h
  rcases h with (hletter | hdigit) | rfl
  · rcases Bool.or_eq_true_iff.1 hletter with hupper | hlower
    · exact hle 'Z' (of_decide_eq_true hupper).2 (by decide)
    · exact hle 'z' (of_decide_eq_true (Bool.and_eq_true_iff.1 hlower).2) (by decide)
  · exact Nat.lt_of_le_of_lt (Char.isDigit_iff_toNat.1 hdigit).2 (by decide)
  · decide

theorem isWordStart_of_isUpper {c : Char} (h : c.isUpper = true) : isWordStart c = true := by
  have halpha : c.isAlpha = true := Bool.or_eq_true_iff.2 (.inl h)
  simp [isWordStart, halpha]

/-- What is lower-cased to characters of words, none of them a `k`, is such a character. -/
theorem isWordChar_of_lowerChar {c : Char}
    (h : ∀ d ∈ lowerChar c, isWordChar d = true ∧ d ≠ 'k') :
    isWordChar c = true ∧ lowerChar c = [c.toLower] := by
  by_cases hascii : c.toNat < 128
  · have hlower : lowerChar c = [c.toLower] := by rw [lowerChar, if_pos hascii]
    refine ⟨?_, hlower⟩
    cases hupper : c.isUpper with
    | true => exact isWordChar_of_isWordStart (isWordStart_of_isUpper hupper)
    | false =>
      rw [hlower, toLower_eq_self hupper] at h
      exact (h c List.mem_cons_self).1
  · exfalso
    by_cases hkelvin : c.toNat = 0x212A
    · have hk : lowerChar (Char.ofNat 0x212A) = ['k'] := by decide
      rw [← Char.ofNat_toNat c, hkelvin, hk] at h
      exact (h 'k' List.mem_cons_self).2 rfl
    · obtain ⟨d, hd, hbeyond⟩ := exists_mem_lowerChar (Nat.le_of_not_lt hascii) hkelvin
      have := toNat_lt_of_isWordChar (h d hd).1
      omega

theorem isWordChar_lowerSigma (before after : List Char) :
    isWordChar (lowerSigma before after) = false := by
  unfold lowerSigma
  split <;> decide

theorem isWordChar_of_lowerAfter : ∀ {before cs : List Char},
    (∀ d ∈ lowerAfter before cs, isWordChar d = true ∧ d ≠ 'k') →
      ∀ c ∈ cs, isWordChar c = true ∧ c ≠ 'Σ' ∧ lowerChar c = [c.toLower]
  | _, [], _ => by simp
  | before, c :: cs, h => by
    rw [lowerAfter, List.forall_mem_append] at h
    obtain ⟨hc, hcs⟩ := h
    refine List.forall_mem_cons.2 ⟨?_, isWordChar_of_lowerAfter hcs⟩
    by_cases hsigma : c = 'Σ'
    · rw [if_pos hsigma] at hc
      have := (hc _ List.mem_cons_self).1
      rw [isWordChar_lowerSigma] at this
      cases this
    · rw [if_neg hsigma] at hc
      obtain ⟨hword, hlower⟩ := isWordChar_of_lowerChar hc
      exact ⟨hword, hsigma, hlower⟩

/-- **A word without a `k`** is the lower case of words only. -/
theorem isWord_of_lower {s : String} (hword : IsWord (lower s).toList)
    (hk : 'k' ∉ (lower s).toList) : IsWord s.toList := by
  obtain ⟨x, r, hlower, hx, hr⟩ := hword
  have hchars : ∀ d ∈ lowerAfter [] s.toList, isWordChar d = true ∧ d ≠ 'k' := by
    rw [lower, String.toList_ofList] at hlower hk
    intro d hd
    refine ⟨?_, fun he => hk (he ▸ hd)⟩
    rw [hlower] at hd
    rcases List.mem_cons.1 hd with rfl | hd
    · exact isWordChar_of_isWordStart hx
    · exact hr d hd
  have hword := isWordChar_of_lowerAfter hchars
  rw [lower, String.toList_ofList] at hlower
  cases hs : s.toList with
  | nil =>
    rw [hs] at hlower
    cases hlower
  | cons c cs =>
    rw [hs] at hword hlower
    obtain ⟨⟨-, hsigma, hc⟩, hcs⟩ := List.forall_mem_cons.1 hword
    refine ⟨c, cs, rfl, ?_, fun d hd => (hcs d hd).1⟩
    rw [lowerAfter, if_neg hsigma, hc] at hlower
    obtain ⟨rfl, -⟩ := List.cons.inj hlower
    cases hupper : c.isUpper with
    | true => exact isWordStart_of_isUpper hupper
    | false => rwa [toLower_eq_self hupper] at hx

/-! ## The names of the compiler as words -/

/-- A name that the compiler may choose, whatever the case of its letters. -/
def IsCompilerName (name : String) : Prop :=
  ∃ base ∈ SyntheticNames.preferred.toList, ∃ k, lower name = lower (Fresh.candidate base k)

/-- A small letter other than `k`, or an underscore. -/
def isBaseChar (c : Char) : Bool :=
  decide (c.toNat < 128) && !c.isUpper && isWordStart c && c != 'k' && !isDigit c

theorem isBaseChar_preferred :
    SyntheticNames.preferred.toList.all (fun base => !base.toList.isEmpty &&
      base.toList.all isBaseChar) = true := by decide

namespace Fresh

variable {base : String}

theorem isBaseChar_of_mem (hbase : base ∈ SyntheticNames.preferred.toList) :
    base.toList ≠ [] ∧ ∀ c ∈ base.toList, isBaseChar c = true := by
  have h := List.all_eq_true.1 isBaseChar_preferred base hbase
  simpa using h

theorem mem_candidate {c : Char} {k : Nat} (h : c ∈ (candidate base k).toList) :
    c ∈ base.toList ∨ c = '_' ∨ isDigit c = true := by
  by_cases hk : k = 0
  · subst hk
    exact .inl h
  · rw [toList_candidate base hk, List.mem_append, List.mem_cons] at h
    exact h.imp id (Or.imp id isDigit_of_mem_digits)

/-- The candidates for the names of the compiler are words without a `k`, in lower case. -/
theorem candidate_spec (hbase : base ∈ SyntheticNames.preferred.toList) (k : Nat) :
    IsWord (lower (candidate base k)).toList ∧ 'k' ∉ (lower (candidate base k)).toList ∧
      lower (candidate base k) = candidate base k := by
  obtain ⟨hne, hchars⟩ := isBaseChar_of_mem hbase
  have hchar : ∀ c ∈ (candidate base k).toList,
      (c.toNat < 128 ∧ c.isUpper = false) ∧ isWordChar c = true ∧ c ≠ 'k' := by
    intro c hc
    rcases mem_candidate hc with hc | rfl | hc
    · have := hchars c hc
      simp only [isBaseChar, Bool.and_eq_true, decide_eq_true_eq, Bool.not_eq_true', bne_iff_ne]
        at this
      obtain ⟨⟨⟨⟨hascii, hsmall⟩, hstart⟩, hk⟩, -⟩ := this
      exact ⟨⟨hascii, hsmall⟩, isWordChar_of_isWordStart hstart, hk⟩
    · decide
    · refine ⟨ascii_of_isDigit hc, ?_, ?_⟩
      · simp [isWordChar, Char.isAlphanum, isDigit_iff.1 hc]
      · rintro rfl
        cases hc
  have hlower : lower (candidate base k) = candidate base k := by
    rw [lower, lowerAfter_eq_self [] _ fun c hc => (hchar c hc).1, String.ofList_toList]
  obtain ⟨c, t, hbase'⟩ := List.exists_cons_of_ne_nil hne
  have hstart := hchars c (hbase' ▸ List.mem_cons_self)
  simp only [isBaseChar, Bool.and_eq_true] at hstart
  obtain ⟨r, hr⟩ : ∃ r, (candidate base k).toList = c :: r := by
    by_cases hk : k = 0
    · subst hk
      exact ⟨t, hbase'⟩
    · exact ⟨_, by rw [toList_candidate base hk, hbase', List.cons_append]⟩
  rw [hlower]
  refine ⟨⟨c, r, hr, hstart.1.1.2, fun d hd => ?_⟩, fun hk => (hchar _ hk).2.2 rfl, rfl⟩
  exact (hchar d (hr ▸ List.mem_cons_of_mem _ hd)).2.1

theorem isDigit_of_mem_base (hbase : base ∈ SyntheticNames.preferred.toList) {c : Char}
    (hc : c ∈ base.toList) : isDigit c = false := by
  have := (isBaseChar_of_mem hbase).2 c hc
  simp only [isBaseChar, Bool.and_eq_true, Bool.not_eq_true'] at this
  exact this.2

/-- Only the first candidate has no digit, and a base is what stands before the number. -/
theorem takeWhile_candidate (hbase : base ∈ SyntheticNames.preferred.toList) (k : Nat) :
    (candidate base k).toList.takeWhile (fun c => !isDigit c) =
      if k = 0 then base.toList else base.toList ++ ['_'] := by
  have hall : ∀ c ∈ base.toList, (!isDigit c) = true := by
    intro c hc
    rw [isDigit_of_mem_base hbase hc]
    rfl
  split
  case isTrue hk =>
    subst hk
    exact List.takeWhile_eq_self_iff.2 hall
  case isFalse hk =>
    have hnumber : (digits k).takeWhile (fun c => !isDigit c) = [] := by
      obtain ⟨d, ds, hd⟩ := List.exists_cons_of_ne_nil (digits_ne_nil k)
      rw [hd, List.takeWhile_cons_of_neg]
      simp [isDigit_of_mem_digits (hd ▸ List.mem_cons_self : d ∈ digits k)]
    rw [toList_candidate base hk, List.takeWhile_append_of_pos hall,
      List.takeWhile_cons_of_pos (by decide), hnumber]

theorem candidate_ne_base {base' : String} (hbase : base ∈ SyntheticNames.preferred.toList)
    {k : Nat} (hk : k ≠ 0) : candidate base' k ≠ base := by
  rintro rfl
  obtain ⟨d, hd⟩ := List.exists_mem_of_ne_nil _ (digits_ne_nil k)
  have hmem : d ∈ (candidate base' k).toList := by
    rw [toList_candidate base' hk]
    exact List.mem_append_right _ (List.mem_cons_of_mem _ hd)
  have := isDigit_of_mem_base hbase hmem
  rw [isDigit_of_mem_digits hd] at this
  cases this

/-- **The candidates of different bases** differ. -/
theorem base_eq_of_candidate_eq {base' : String} (hbase : base ∈ SyntheticNames.preferred.toList)
    (hbase' : base' ∈ SyntheticNames.preferred.toList) {j k : Nat}
    (h : candidate base j = candidate base' k) : base = base' := by
  by_cases hj : j = 0 <;> by_cases hk : k = 0
  · subst hj hk
    exact h
  · subst hj
    exact absurd h.symm (candidate_ne_base hbase hk)
  · subst hk
    exact absurd h (candidate_ne_base hbase' hj)
  · have hfronts := congrArg (fun s : String => s.toList.takeWhile fun c => !isDigit c) h
    simp only [takeWhile_candidate hbase, takeWhile_candidate hbase', if_neg hj, if_neg hk]
      at hfronts
    exact String.toList_inj.1 (List.append_cancel_right hfronts)

/-- **A free candidate** is chosen when all those before it are taken. -/
theorem candidate_mem_pickAll {k : Nat} (hbase : base ∈ SyntheticNames.preferred.toList) :
    ∀ {bases taken : List String}, bases ⊆ SyntheticNames.preferred.toList → base ∈ bases →
      (∀ j < k, lower (candidate base j) ∈ taken) → lower (candidate base k) ∉ taken →
      candidate base k ∈ pickAll taken bases
  | [], _, _, hmem, _, _ => by cases hmem
  | head :: bases, taken, hbases, hmem, hbefore, hfree => by
    obtain ⟨j, hpick, hfree', hbefore'⟩ := exists_pick taken head
    rw [pickAll, List.mem_cons]
    by_cases hhead : head = base
    · subst hhead
      left
      rw [hpick]
      rcases Nat.lt_trichotomy j k with hlt | rfl | hgt
      · exact absurd (hbefore j hlt) hfree'
      · rfl
      · exact absurd (hbefore' k hgt) hfree
    · have hmem := (List.mem_cons.1 hmem).resolve_left (Ne.symm hhead)
      have hhead' := hbases List.mem_cons_self
      refine .inr (candidate_mem_pickAll hbase (fun _ h => hbases (List.mem_cons_of_mem _ h)) hmem
        (fun j hj => List.mem_cons_of_mem _ (hbefore j hj)) ?_)
      rw [hpick, List.mem_cons, not_or]
      refine ⟨fun he => hhead ?_, hfree⟩
      rw [(candidate_spec hbase k).2.2, (candidate_spec hhead' j).2.2] at he
      exact base_eq_of_candidate_eq hhead' hbase he.symm

/-- What is picked is a candidate of one of the bases. -/
theorem exists_candidate_of_mem_pickAll {name : String} :
    ∀ {bases taken : List String}, name ∈ pickAll taken bases →
      ∃ base ∈ bases, ∃ k, name = candidate base k
  | [], _, h => by cases h
  | base :: bases, taken, h => by
    rcases List.mem_cons.1 h with rfl | h
    · obtain ⟨k, hk, -⟩ := exists_pick taken base
      exact ⟨base, List.mem_cons_self, k, hk⟩
    · obtain ⟨base', hbase', k, hk⟩ := exists_candidate_of_mem_pickAll h
      exact ⟨base', List.mem_cons_of_mem _ hbase', k, hk⟩

end Fresh

/-- The names of the compiler are such names, and those that are are words. -/
theorem isCompilerName_of_mem_avoiding {used : List String} {name : String}
    (h : name ∈ (SyntheticNames.avoiding used).toList) : IsCompilerName name := by
  rw [SyntheticNames.toList_avoiding] at h
  obtain ⟨base, hbase, k, rfl⟩ := Fresh.exists_candidate_of_mem_pickAll h
  exact ⟨base, hbase, k, rfl⟩

theorem IsCompilerName.isWord {name : String} (h : IsCompilerName name) : IsWord name.toList := by
  obtain ⟨base, hbase, k, hlower⟩ := h
  obtain ⟨hword, hk, -⟩ := Fresh.candidate_spec hbase k
  rw [← hlower] at hword hk
  exact isWord_of_lower hword hk

/-! ## Raw texts of a select -/

section

variable {σ : Type}

/-- The raw texts that a source is made of. -/
def Source.rawTexts : Source σ → List String
  | .table _ => []
  | .join _ left right _ => left.rawTexts ++ right.rawTexts
  | .raw text => [text]

/-- A raw text is a source of the first core, or occurs in it or in the order. -/
def SelectBody.HasRaw (s : SelectBody σ) (text : String) : Prop :=
  (∃ e ∈ s.visible, Expr.Occurs (.raw text) e) ∨
    ∃ c ∈ s.cores.head?, ∃ source ∈ c.source, text ∈ source.rawTexts

theorem Source.rawNames_subset_names {text : String} :
    ∀ {s : Source σ}, text ∈ s.rawTexts → rawNames text ⊆ s.names
  | .raw _, h => by
    obtain rfl := List.mem_singleton.1 h
    exact List.Subset.refl _
  | .join _ left right _, h => by
    intro n hn
    rw [names, List.mem_append, List.mem_append]
    rcases List.mem_append.1 h with h | h
    · exact .inl (.inl (rawNames_subset_names h hn))
    · exact .inl (.inr (rawNames_subset_names h hn))

/-- **The names found in a raw text** of a select are in use. -/
theorem SelectBody.rawNames_subset_names {s : SelectBody σ} {text : String} (h : s.HasRaw text) :
    rawNames text ⊆ s.names := by
  intro n hn
  rcases h with ⟨e, he, hoccurs⟩ | ⟨c, hc, source, hsource, htext⟩
  · refine mem_names_of_visible he (Expr.names_subset_of_occurs hoccurs ?_)
    rwa [Expr.names]
  · refine List.mem_append_left _ (List.mem_flatMap.2 ⟨c, Option.mem_toList.2 hc, ?_⟩)
    exact List.mem_append_right _ (List.mem_flatMap.2 ⟨source, Option.mem_toList.2 hsource,
      Source.rawNames_subset_names htext hn⟩)

end

/-! ## Texts whose identifiers are found -/

namespace Sql

/-- The scan is not misled by the piece: a text, a quoted name or a comment has no opening bracket,
and a number no letter. -/
def Piece.isTransparent : Piece → Bool
  | .enclosed close content => close == ']' || !content.contains '['
  | .comment spelling => !spelling.contains '['
  | .number spelling => !spelling.any isWordStart
  | _ => true

variable {letter : Char → Bool} {p : Piece} {before rest : List Char}

theorem Piece.not_mem_comment {spelling : List Char}
    (h : (Piece.comment spelling).isTransparent = true) : '[' ∉ (Piece.comment spelling).text := by
  simpa [isTransparent, text] using h

theorem isBareChar_of_isWordChar {c : Char} (h : isWordChar c = true) :
    isBareChar letter c = true := by
  simp only [isWordChar, Char.isAlphanum, Bool.or_eq_true] at h
  rcases h with (h | h) | h
  · simp [isBareChar, isBareStart, isWordStart, h]
  · simp [isBareChar, isDigit_iff.2 h]
  · simp [isBareChar, isBareStart, isWordStart, h]

theorem isWordChar_of_isBareChar_eq_false {c : Char} (h : isBareChar letter c = false) :
    isWordChar c = false := by
  cases hc : isWordChar c with
  | false => rfl
  | true =>
    rw [isBareChar_of_isWordChar hc] at h
    cases h

/-- After what is enclosed the scan is between names, if there is no opening bracket in it or it is
in brackets itself. -/
theorem betweenNames_enclosed {close : Char} {content : List Char}
    (hclose : close = ']' ∨ close = '"' ∨ close = apostrophe)
    (htransparent : (Piece.enclosed close content).isTransparent = true)
    (hplace : BetweenNames before ((Piece.enclosed close content).text ++ rest)) :
    BetweenNames (before ++ (Piece.enclosed close content).text) rest := by
  have hend : before ++ (Piece.enclosed close content).text =
      (before ++ Piece.opening close :: double close content) ++ [close] := by
    simp [Piece.text]
  have hword : isWordChar close = false := by rcases hclose with rfl | rfl | rfl <;> decide
  refine ⟨?_, .inr (hend ▸ wordFree_concat hword _)⟩
  by_cases hbracket : close = ']'
  · subst hbracket
    exact hend ▸ not_spanned_close _ _
  · have hcontent : '[' ∉ content := by
      simpa [Piece.isTransparent, hbracket] using htransparent
    have hquote : '[' ≠ close := by rcases hclose with rfl | rfl | rfl <;> decide
    refine hplace.outside_append fun hopen => ?_
    simp only [Piece.text, Piece.opening, hbracket, if_false, List.mem_cons, List.mem_append,
      List.not_mem_nil, or_false, hquote, false_or] at hopen
    exact hcontent (mem_of_mem_double hopen)

/-- A piece that does not mislead the scan leads from one place between names to another. -/
theorem Fits.betweenNames (hp : Fits letter p rest) (htransparent : p.isTransparent = true)
    (hplace : BetweenNames before (p.text ++ rest)) : BetweenNames (before ++ p.text) rest := by
  cases hp with
  | bare hc hname hrest =>
    refine ⟨hplace.outside_append fun hopen => ?_,
      .inl fun d hd => isWordChar_of_isBareChar_eq_false (hrest d hd)⟩
    rcases List.mem_cons.1 hopen with rfl | hopen
    · cases hc
    · cases hname _ hopen
  | enclosed hclose hrest => exact betweenNames_enclosed hclose htransparent hplace
  | @number spelling _ hne hopen =>
    have hletters : ∀ c ∈ spelling, isWordStart c = false := by
      simpa [Piece.isTransparent] using htransparent
    exact ⟨hplace.outside_append hopen, .inr (wordFree_append hne hletters hplace.parted)⟩
  | line hrest =>
    refine ⟨hplace.outside_append (Piece.not_mem_comment htransparent), .inl ?_⟩
    intro d hd
    rw [hrest d hd]
    rfl
  | @block spelling =>
    have hend : before ++ (Piece.comment ('/' :: (spelling ++ ['/']))).text =
        (before ++ '/' :: spelling) ++ ['/'] := by
      simp [Piece.text]
    refine ⟨hplace.outside_append (Piece.not_mem_comment htransparent), .inr ?_⟩
    exact hend ▸ wordFree_concat (by decide) _
  | unclosed =>
    refine ⟨?_, .inl (by simp)⟩
    rintro ⟨front, inside, inside', after, -, hafter, -⟩
    simp at hafter
  | @other c _ hopen hc =>
    have hstart : isWordStart c = false := by
      simp only [isBareStart, Bool.or_eq_false_iff] at hc
      exact hc.1.1.1
    exact ⟨hplace.outside_append (by simpa [Piece.text] using Ne.symm hopen),
      .inr (wordFree_append (by simp [Piece.text]) (by simpa [Piece.text] using hstart)
        hplace.parted)⟩

/-- A name in quotation marks stands after the first of them. -/
theorem stands_after_quote {content : List Char}
    (hplace : BetweenNames before ('"' :: (content ++ ['"']) ++ rest))
    (hname : Spells content content ('"' :: rest)) :
    Stands (before ++ ('"' :: (content ++ ['"']) ++ rest)) content := by
  have htext : '"' :: (content ++ ['"']) ++ rest = ['"'] ++ (content ++ '"' :: rest) := by simp
  rw [htext] at hplace ⊢
  exact ⟨before ++ ['"'], content, '"' :: rest, by rw [List.append_assoc], hname,
    hplace.outside_append (by decide), .inr (wordFree_concat (by decide) _)⟩

/-- A word that is the name of a piece stands in the text. -/
theorem Fits.stands {name : String} (hp : Fits letter p rest)
    (hplace : BetweenNames before (p.text ++ rest)) (hname : p.identifier? = some name)
    (hword : IsWord name.toList) : Stands (before ++ (p.text ++ rest)) name.toList := by
  obtain ⟨c, w, hcons, hc, hw⟩ := hword
  have hchars : ∀ d ∈ name.toList, isWordChar d = true := by
    rw [hcons]
    exact List.forall_mem_cons.2 ⟨isWordChar_of_isWordStart hc, hw⟩
  cases hp with
  | bare hc' hname' hrest =>
    obtain rfl := Option.some.inj hname
    rw [String.toList_ofList] at hcons ⊢
    refine ⟨before, _, rest, rfl, ?_, hplace⟩
    rw [Piece.text, hcons]
    exact .word hc hw fun d hd => isWordChar_of_isBareChar_eq_false (hrest d hd)
  | @enclosed close content _ hclose hrest =>
    have hquote : close ≠ apostrophe := by
      rintro rfl
      cases hname
    rw [Piece.identifier?, if_neg hquote] at hname
    obtain rfl := Option.some.inj hname
    rw [String.toList_ofList] at hcons hchars ⊢
    have hdouble : double close content = content := by
      refine double_eq_self fun hmem => ?_
      have := hchars close hmem
      rcases hclose with rfl | rfl | rfl <;> cases this
    rw [Piece.text, hdouble] at hplace ⊢
    rcases hclose with rfl | rfl | rfl
    · refine ⟨before, _, rest, rfl, .bracketed (by simp [hcons]) fun hmem => ?_, hplace⟩
      cases hchars _ hmem
    · refine stands_after_quote hplace ?_
      rw [hcons]
      exact .word hc hw fun d hd => by
        obtain rfl := Option.some.inj hd
        rfl
    · exact absurd rfl hquote
  | number => cases hname
  | line => cases hname
  | block => cases hname
  | unclosed => cases hname
  | other => cases hname

/-- **The words among the names** of a text whose pieces do not mislead the scan stand in it. -/
theorem Lexes.stands {cs : List Char} {ps : List Piece} (h : Lexes letter cs ps)
    (htransparent : ∀ p ∈ ps, p.isTransparent = true) (hplace : BetweenNames before cs)
    {name : String} (hname : name ∈ ps.filterMap Piece.identifier?) (hword : IsWord name.toList) :
    Stands (before ++ cs) name.toList := by
  induction h generalizing before with
  | nil => cases hname
  | @cons p rest ps hp hrest ih =>
    obtain ⟨hp', hps⟩ := List.forall_mem_cons.1 htransparent
    obtain ⟨q, hq, hqname⟩ := List.mem_filterMap.1 hname
    rcases List.mem_cons.1 hq with rfl | hq
    · exact hp.stands hplace hqname hword
    · rw [← List.append_assoc]
      exact ih hps (hp.betweenNames hp' hplace) (List.mem_filterMap.2 ⟨q, hq, hqname⟩)

end Sql

/-! ## Selects -/

open Sql (identifiers pieces Piece)

/-- The names of the compiler are different from every identifier of the text, in every select that
has the text. -/
def AvoidedBySelects (letter : Char → Bool) (text : String) : Prop :=
  ∀ (options : Options) (s : Select), s.body.HasRaw text →
    ∀ name ∈ (s.scope options).names.toList, ∀ i ∈ identifiers letter text,
      lower name ≠ lower i

theorem Select.names_scope_eq (options : Options) (s : Select) :
    (s.scope options).names = .avoiding s.body.names := by
  rw [names_scope, level, SelectBody.names_map]

/-- A select with the text and the first candidates for a name. -/
def takingFirst (text base : String) (k : Nat) : SelectBody Select where
  cores :=
    [{ projections := .raw text :: (List.range k).map fun j => .named (Fresh.candidate base j) }]

theorem mem_names_takingFirst {text base name : String} {k : Nat} :
    name ∈ (takingFirst text base k).names ↔
      name ∈ rawNames text ∨ ∃ j < k, name = Fresh.candidate base j := by
  have hnamed : ∀ names : List String,
      Expr.namesList (names.map fun n => (.named n : Expr Select)) = names := by
    intro names
    induction names with
    | nil => rfl
    | cons n names ih =>
      rw [List.map_cons, Expr.namesList, ih, Expr.named, Expr.names]
      rfl
  have hnames : (takingFirst text base k).names =
      rawNames text ++ (List.range k).map (Fresh.candidate base) := by
    have := hnamed ((List.range k).map (Fresh.candidate base))
    rw [List.map_map] at this
    simp [takingFirst, SelectBody.names, Core.names, Expr.namesList, Expr.names, ← this,
      Function.comp_def]
  simp [hnames, eq_comm]

/-- A compiler name that does not stand in a text is chosen by some select with the text. -/
theorem exists_choosing {text base : String} {k : Nat}
    (hbase : base ∈ SyntheticNames.preferred.toList)
    (hfree : ∀ n : String, Stands text.toList n.toList →
      lower n ≠ lower (Fresh.candidate base k)) (options : Options) :
    ∃ s : Select, s.body.HasRaw text ∧
      Fresh.candidate base k ∈ (s.scope options).names.toList := by
  refine ⟨.of (takingFirst text base k), .inl ⟨.raw text, ?_, .self⟩, ?_⟩
  · simp [Select.body, takingFirst, SelectBody.visible, Core.exprs]
  · rw [Select.names_scope_eq, SyntheticNames.toList_avoiding]
    refine Fresh.candidate_mem_pickAll hbase (List.Subset.refl _) hbase (fun j hj => ?_) ?_
    · exact List.mem_map_of_mem (mem_names_takingFirst.2 (.inr ⟨j, hj, rfl⟩))
    · intro hmem
      obtain ⟨n, hn, hlower⟩ := List.mem_map.1 hmem
      rcases mem_names_takingFirst.1 hn with hn | ⟨j, hj, rfl⟩
      · exact hfree n (mem_rawNames_iff.1 hn) hlower
      · exact absurd (Fresh.lower_candidate_injective hlower) (Nat.ne_of_lt hj)

/-- **The identifiers of a text** are avoided exactly when those that the compiler may choose stand
in the text. -/
theorem avoidedBySelects_iff (letter : Char → Bool) (text : String) :
    AvoidedBySelects letter text ↔ ∀ i ∈ identifiers letter text, IsCompilerName i →
      ∃ n : String, Stands text.toList n.toList ∧ lower n = lower i := by
  constructor
  · rintro havoided i hi ⟨base, hbase, k, hlower⟩
    by_contra hnone
    have hfree : ∀ n : String, Stands text.toList n.toList →
        lower n ≠ lower (Fresh.candidate base k) :=
      fun n hn he => hnone ⟨n, hn, he.trans hlower.symm⟩
    obtain ⟨s, hraw, hname⟩ := exists_choosing hbase hfree {}
    exact havoided {} s hraw _ hname i hi hlower.symm
  · intro hstands options s hraw name hname i hi hlower
    rw [Select.names_scope_eq] at hname
    obtain ⟨base, hbase, k, hcandidate⟩ := isCompilerName_of_mem_avoiding hname
    obtain ⟨n, hn, hlower'⟩ := hstands i hi ⟨base, hbase, k, hlower.symm.trans hcandidate⟩
    have hused := SelectBody.rawNames_subset_names hraw (mem_rawNames_iff.2 hn)
    exact SyntheticNames.lower_ne_of_mem_avoiding hname hused (hlower.trans hlower'.symm)

/-- **Identifiers in raw text** are avoided by the names of the compiler, provided that no text,
quoted name or comment has an opening bracket and no number a letter. -/
theorem Select.raw_identifiers_avoided (letter : Char → Bool) (text : String) :
    ((pieces letter text.toList).all Piece.isTransparent = true →
      AvoidedBySelects letter text) ∧
    (AvoidedBySelects letter text ↔ ∀ i ∈ identifiers letter text, IsCompilerName i →
      ∃ n : String, Stands text.toList n.toList ∧ lower n = lower i) := by
  refine ⟨fun htransparent => ?_, avoidedBySelects_iff letter text⟩
  refine (avoidedBySelects_iff letter text).2 fun i hi hcompiler => ⟨i, ?_, rfl⟩
  exact (Sql.lexes_pieces letter text.toList).stands (List.all_eq_true.1 htransparent)
    (betweenNames_nil _) hi hcompiler.isWord

/-- A page of a raw text. -/
def rawPage (text : String) : Select :=
  .of
    { cores := [{ projections := [.raw text], source := some (.table { name := "t" }) }]
      offset := some (.int 1) }

theorem hasRaw_rawPage (text : String) : (rawPage text).body.HasRaw text :=
  .inl ⟨.raw text, List.mem_cons_self, .self⟩

/-- Names in either kind of delimiters, a number before a name, and an apostrophe in a comment. -/
def delimitedNames : String := "\"__Rn\" + [__RNT] /* it's */ * 2count"

theorem Select.raw_identifiers_avoided_delimited :
    (pieces (fun _ => false) delimitedNames.toList).all Piece.isTransparent = true ∧
      identifiers (fun _ => false) delimitedNames = ["__Rn", "__RNT", "count"] ∧
      ∀ name ∈ ((rawPage delimitedNames).scope {}).names.toList,
        ∀ i ∈ ["__Rn", "__RNT", "count"], lower name ≠ lower i := by
  have htransparent : (pieces (fun _ => false) delimitedNames.toList).all Piece.isTransparent =
      true := by decide +kernel
  have hidentifiers : identifiers (fun _ => false) delimitedNames = ["__Rn", "__RNT", "count"] := by
    decide +kernel
  obtain ⟨havoided, -⟩ := raw_identifiers_avoided (fun _ => false) delimitedNames
  refine ⟨htransparent, hidentifiers, fun name hname i hi => ?_⟩
  exact havoided htransparent {} _ (hasRaw_rawPage _) name hname i (hidentifiers ▸ hi)

/-- **Brackets in texts** hide the name between them, and the compiler chooses it for the numbers of
the rows. -/
theorem Select.raw_identifier_captured :
    ¬ AvoidedBySelects (fun _ => false) "'[' + __rn + ']'" ∧
      Statement.sql {} (.select (rawPage "'[' + __rn + ']'")) = .ok
        ("SELECT [__rnt].* FROM (SELECT ROW_NUMBER() OVER (ORDER BY (SELECT NULL) ASC) AS [__rn]" ++
          ", '[' + __rn + ']' FROM [t]) AS [__rnt] WHERE [__rnt].[__rn] > (1) " ++
          "ORDER BY [__rnt].[__rn] ASC") := by
  refine ⟨fun havoided => ?_, by decide +kernel⟩
  exact havoided {} _ (hasRaw_rawPage _) "__rn" (by decide +kernel) "__rn" (by decide +kernel) rfl

end Transact
