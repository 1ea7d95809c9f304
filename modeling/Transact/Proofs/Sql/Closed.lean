import Transact.Proofs.Sql.Token

/-!
# Closed texts

A text is closed when its names and texts all end and its parentheses match. `Tidy good` holds of a
closed text whose tokens satisfy `good`, which is any property of tokens that can be put together
from those of parts (`Composable`).

* `openParens_append`: matched parentheses do not show to what follows.
* `Tidy.separated`, `Tidy.joined`, `Tidy.enclosed`, `Heads.tidy`: tidy texts are put together with
  separators, parentheses and keywords.
* `Tidy.of_plain`: a text without brackets, apostrophes and parentheses is tidy.
* `constantText_literal`, `Tidy.literal`: the text of a constant is a number or the like, or stands
  between apostrophes, and is tidy, if no apostrophe in it follows a backslash.
-/

set_option autoImplicit false

namespace Transact.Sql

open Text

/-! ## Parentheses -/

/-- The number of parentheses that are open after the tokens when `n` are open before them; `none`
when one is closed that is not open. -/
def openParens : Nat → List Token → Option Nat
  | n, [] => some n
  | n, t :: ts =>
    if t = .lparen then openParens (n + 1) ts
    else if t = .rparen then if n = 0 then none else openParens (n - 1) ts
    else openParens n ts

/-- The names and texts in the text all end, and its parentheses match. -/
def IsClosed (text : String) : Prop :=
  .unclosed ∉ tokens text ∧ openParens 0 (tokens text) = some 0

instance (text : String) : Decidable (IsClosed text) :=
  inferInstanceAs (Decidable (_ ∧ _))

/-- What is open before the tokens is open after them. -/
theorem openParens_append (us : List Token) (n : Nat) : ∀ {ts : List Token} {k m : Nat},
    openParens k ts = some m → openParens (k + n) (ts ++ us) = openParens (m + n) us
  | [], k, m, h => by
    obtain rfl := Option.some.inj h
    rfl
  | t :: ts, k, m, h => by
    rw [openParens] at h
    rw [List.cons_append, openParens]
    by_cases hl : t = .lparen
    · rw [if_pos hl] at h ⊢
      rw [← openParens_append us n h, Nat.add_right_comm]
    · rw [if_neg hl] at h ⊢
      by_cases hr : t = .rparen
      · rw [if_pos hr] at h ⊢
        by_cases hk : k = 0
        · rw [if_pos hk] at h
          cases h
        · rw [if_neg hk] at h
          rw [if_neg (by omega), ← openParens_append us n h, show k + n - 1 = k - 1 + n by omega]
      · rw [if_neg hr] at h ⊢
        exact openParens_append us n h

/-! ## Tokens that leave nothing open -/

/-- Any token but a name and one that does not end. -/
def Token.isPlain : Token → Bool
  | .name _ => false
  | .unclosed => false
  | _ => true

/-- A property of tokens that holds of plain ones, and of a list whose parts have it. -/
class Composable (good : List Token → Prop) : Prop where
  nil : good []
  append : ∀ {as bs}, good as → good bs → good (as ++ bs)
  plain : ∀ {t : Token}, t.isPlain = true → good [t]

/-- The tokens leave nothing open, and are good. -/
structure Settled (good : List Token → Prop) (ts : List Token) : Prop where
  ends : .unclosed ∉ ts
  matched : openParens 0 ts = some 0
  good : good ts

variable {good : List Token → Prop} [Composable good]

theorem Composable.of_plain : ∀ {ts : List Token}, ts.all Token.isPlain = true → good ts
  | [], _ => Composable.nil
  | t :: ts, h => by
    rw [List.all_cons, Bool.and_eq_true] at h
    exact Composable.append (Composable.plain h.1) (of_plain h.2)

namespace Settled

variable {as bs : List Token}

theorem nil : Settled good [] := ⟨List.not_mem_nil, rfl, Composable.nil⟩

theorem of_plain (h : as.all Token.isPlain = true) (hmatched : openParens 0 as = some 0) :
    Settled good as := by
  refine ⟨fun hmem => ?_, hmatched, Composable.of_plain h⟩
  exact absurd (List.all_eq_true.1 h _ hmem) (by decide)

theorem append (ha : Settled good as) (hb : Settled good bs) : Settled good (as ++ bs) := by
  refine ⟨fun h => ?_, ?_, Composable.append ha.good hb.good⟩
  · rcases List.mem_append.1 h with h | h
    · exact ha.ends h
    · exact hb.ends h
  · have h := openParens_append bs 0 ha.matched
    rw [Nat.add_zero] at h
    rw [h, hb.matched]

theorem parens (ha : Settled good as) : Settled good (.lparen :: (as ++ [.rparen])) := by
  refine ⟨fun h => ?_, ?_, ?_⟩
  · rcases List.mem_cons.1 h with h | h
    · cases h
    · rcases List.mem_append.1 h with h | h
      · exact ha.ends h
      · simp at h
  · have h := openParens_append [.rparen] 1 ha.matched
    rw [Nat.zero_add] at h
    rw [openParens, if_pos rfl, h]
    rfl
  · have hleft : good [.lparen] := Composable.plain rfl
    exact Composable.append hleft (Composable.append ha.good (Composable.plain rfl))

end Settled

/-! ## Tidy texts -/

/-- The text is read as settled tokens wherever it stops. -/
def Tidy (good : List Token → Prop) (text : String) : Prop :=
  ∃ ts, Reads text ts ∧ Settled good ts

/-- The text is read as settled tokens whatever follows. -/
def Heads (good : List Token → Prop) (text : String) : Prop :=
  ∃ ts, Leads text ts ∧ Settled good ts

/-- The text is read as settled tokens and an opening parenthesis, whatever follows. -/
def Opens (good : List Token → Prop) (text : String) : Prop :=
  ∃ ts, Leads text (ts ++ [.lparen]) ∧ Settled good ts

/-- A separator stops what stands before it, and has plain tokens only. -/
structure Separator (sep : String) : Prop where
  leads : Leads sep (tokens sep)
  starts : Starts sep
  plain : (tokens sep).all Token.isPlain = true
  matched : openParens 0 (tokens sep) = some 0

variable {a b : String}

omit [Composable good] in
theorem Tidy.tokens (h : Tidy good a) : Settled good (tokens a) := by
  obtain ⟨ts, hreads, hts⟩ := h
  rw [hreads.tokens_eq]
  exact hts

omit [Composable good] in
theorem Tidy.isClosed (h : Tidy good a) : IsClosed a := ⟨h.tokens.ends, h.tokens.matched⟩

omit [Composable good] in
/-- A closed text is tidy when its tokens are good. -/
theorem Tidy.of_isClosed (h : IsClosed a) (hgood : good (Sql.tokens a)) : Tidy good a :=
  ⟨_, Reads.of_closed h.1, h.1, h.2, hgood⟩

/-- A keyword is tidy. -/
theorem Tidy.keyword (h : (Sql.tokens a).all Token.isPlain = true)
    (hmatched : openParens 0 (Sql.tokens a) = some 0) : Tidy good a := by
  have hsettled : Settled good (Sql.tokens a) := .of_plain h hmatched
  exact .of_isClosed ⟨hsettled.ends, hsettled.matched⟩ hsettled.good

omit [Composable good] in
theorem Tidy.name {n : String} (h : good [.name n]) : Tidy good (name n) :=
  ⟨_, Reads.name n, by simp, rfl, h⟩

theorem Separator.heads (h : Separator a) : Heads good a :=
  ⟨_, h.leads, .of_plain h.plain h.matched⟩

/-- A text with one after it that stops it. -/
theorem Tidy.append (ha : Tidy good a) (hb : Tidy good b) (hstops : Stops b.toList) :
    Tidy good (a ++ b) := by
  obtain ⟨as, hreads, has⟩ := ha
  obtain ⟨bs, hreads', hbs⟩ := hb
  exact ⟨_, hreads.append hreads' hstops, has.append hbs⟩

theorem Heads.tidy (ha : Heads good a) (hb : Tidy good b) : Tidy good (a ++ b) := by
  obtain ⟨as, hreads, has⟩ := ha
  obtain ⟨bs, hreads', hbs⟩ := hb
  exact ⟨_, hreads.read hreads', has.append hbs⟩

theorem Heads.append (ha : Heads good a) (hb : Heads good b) : Heads good (a ++ b) := by
  obtain ⟨as, hleads, has⟩ := ha
  obtain ⟨bs, hleads', hbs⟩ := hb
  exact ⟨_, hleads.lead hleads', has.append hbs⟩

theorem Tidy.heads (ha : Tidy good a) (hb : Heads good b) (hstarts : Starts b) :
    Heads good (a ++ b) := by
  obtain ⟨as, hreads, has⟩ := ha
  obtain ⟨bs, hleads, hbs⟩ := hb
  exact ⟨_, hreads.lead hleads hstarts, has.append hbs⟩

/-- Two texts with a separator between them. -/
theorem Tidy.separated {sep : String} (hsep : Separator sep) (ha : Tidy good a)
    (hb : Tidy good b) : Tidy good (a ++ sep ++ b) :=
  (ha.heads hsep.heads hsep.starts).tidy hb

theorem Heads.opens (ha : Heads good a) (hb : Opens good b) : Opens good (a ++ b) := by
  obtain ⟨as, hleads, has⟩ := ha
  obtain ⟨bs, hleads', hbs⟩ := hb
  refine ⟨as ++ bs, ?_, has.append hbs⟩
  rw [List.append_assoc]
  exact hleads.lead hleads'

theorem Tidy.opens (ha : Tidy good a) (hb : Opens good b) (hstarts : Starts b) :
    Opens good (a ++ b) := by
  obtain ⟨as, hreads, has⟩ := ha
  obtain ⟨bs, hleads, hbs⟩ := hb
  refine ⟨as ++ bs, ?_, has.append hbs⟩
  rw [List.append_assoc]
  exact hreads.lead hleads hstarts

/-- A keyword before what it is about. -/
theorem Heads.keyword (ts : List Token) (h : Leads a ts) (hplain : ts.all Token.isPlain = true)
    (hmatched : openParens 0 ts = some 0) : Heads good a :=
  ⟨ts, h, .of_plain hplain hmatched⟩

/-- A keyword before a parenthesis. -/
theorem Opens.keyword (ts : List Token) (h : Leads a (ts ++ [.lparen]))
    (hplain : ts.all Token.isPlain = true) (hmatched : openParens 0 ts = some 0) :
    Opens good a :=
  ⟨ts, h, .of_plain hplain hmatched⟩

/-- A text in parentheses, after what stands before them. -/
theorem Tidy.enclosed (ha : Opens good a) (hb : Tidy good b) : Tidy good (a ++ b ++ ")") := by
  obtain ⟨as, hleads, has⟩ := ha
  obtain ⟨bs, hreads, hbs⟩ := hb
  have hclose : Leads ")" [.rparen] := fun _ => rfl
  have hread := ((hleads.read hreads).lead hclose rfl).reads
  refine ⟨_, hread, ?_⟩
  have hts : as ++ [.lparen] ++ bs ++ [.rparen] = as ++ (.lparen :: (bs ++ [.rparen])) := by simp
  rw [hts]
  exact has.append hbs.parens

/-- Texts with a separator between neighbours. -/
theorem Tidy.joined {sep : String} (hsep : Separator sep) : ∀ {texts : List String},
    (∀ text ∈ texts, Tidy good text) → Tidy good (join sep texts)
  | [], _ => ⟨[], fun _ _ => rfl, Settled.nil⟩
  | [s], h => h s List.mem_cons_self
  | s :: _ :: _, h =>
    (h s List.mem_cons_self).separated hsep
      (Tidy.joined hsep fun text ht => h text (List.mem_cons_of_mem _ ht))

theorem separator_blank : Separator " " := ⟨fun _ => rfl, rfl, by decide, by decide⟩

theorem separator_comma : Separator ", " := ⟨fun _ => rfl, rfl, by decide, by decide⟩

theorem separator_dot : Separator "." := ⟨fun _ => rfl, rfl, by decide, by decide⟩

theorem separator_as : Separator " AS " := ⟨fun _ => rfl, rfl, by decide, by decide⟩

/-! ## Plain characters -/

/-- The character begins neither a name nor a text, and is no parenthesis. -/
def isPlainChar (c : Char) : Bool := c != '[' && c != apostrophe && c != '(' && c != ')'

/-- The text has plain characters only. -/
def IsPlain (text : String) : Prop := text.toList.all isPlainChar = true

/-- What is being read is neither a name nor a text. -/
def Mode.isPlain : Mode → Bool
  | .inside _ _ => false
  | .closed _ _ => false
  | _ => true

/-- Any token of plain characters. -/
def Token.isBare : Token → Bool
  | .name _ => false
  | .text _ => false
  | .lparen => false
  | .rparen => false
  | .unclosed => false
  | _ => true

@[simp]
theorem isPlain_append : IsPlain (a ++ b) ↔ IsPlain a ∧ IsPlain b := by
  simp only [IsPlain, String.toList_append, List.all_append, Bool.and_eq_true]

theorem isPlain_ofList {cs : List Char} (h : ∀ c ∈ cs, isPlainChar c = true) :
    IsPlain (String.ofList cs) := by
  rw [IsPlain, String.toList_ofList]
  exact List.all_eq_true.2 h

theorem isPlainChar_of_isWordChar {c : Char} (h : isWordChar c = true) : isPlainChar c = true := by
  have hne : ∀ d, isWordChar d = false → c ≠ d := by
    rintro d hd rfl
    rw [h] at hd
    cases hd
  simp only [isPlainChar, Bool.and_eq_true, bne_iff_ne]
  exact ⟨⟨⟨hne _ (by decide), hne _ (by decide)⟩, hne _ (by decide)⟩, hne _ (by decide)⟩

theorem isPlainChar_of_isDigit {c : Char} (h : isDigit c = true) : isPlainChar c = true :=
  isPlainChar_of_isWordChar (isWordChar_of_isDigit h)

theorem Mode.start_plain {c : Char} (h : isPlainChar c = true) :
    (start c).1.all Token.isBare = true ∧ (start c).2.isPlain = true := by
  simp only [isPlainChar, Bool.and_eq_true, bne_iff_ne] at h
  obtain ⟨⟨⟨hname, htext⟩, hleft⟩, hright⟩ := h
  unfold start
  rw [if_neg hname, if_neg htext, if_neg hleft, if_neg hright]
  split_ifs <;> exact ⟨rfl, rfl⟩

theorem Mode.extend?_plain {m m' : Mode} {c : Char} (hm : m.isPlain = true)
    (hc : isPlainChar c = true) (h : m.extend? c = some m') : m'.isPlain = true := by
  simp only [isPlainChar, Bool.and_eq_true, bne_iff_ne] at hc
  cases m with
  | between => cases h
  | inside close read => cases hm
  | closed close read => cases hm
  | word read =>
    simp only [Mode.extend?, hc.1.1.2, decide_false, Bool.false_and, Bool.false_eq_true,
      if_false] at h
    split at h
    · obtain rfl := Option.some.inj h
      rfl
    · cases h
  | sign read =>
    simp only [Mode.extend?] at h
    split at h
    · obtain rfl := Option.some.inj h
      rfl
    · cases h

theorem Mode.flush_plain {m : Mode} (h : m.isPlain = true) : m.flush.all Token.isBare = true := by
  cases m with
  | inside close read => cases h
  | closed close read => cases h
  | between | word read | sign read => rfl

/-- Plain characters are read as bare tokens. -/
theorem lex_plain : ∀ {cs : List Char} {m : Mode}, m.isPlain = true →
    cs.all isPlainChar = true → (lex m cs).all Token.isBare = true
  | [], _, hm, _ => Mode.flush_plain hm
  | c :: cs, m, hm, hcs => by
    rw [List.all_cons, Bool.and_eq_true] at hcs
    rw [lex]
    cases hnext : m.extend? c with
    | some m' => exact lex_plain (Mode.extend?_plain hm hcs.1 hnext) hcs.2
    | none =>
      obtain ⟨hstart, hmode⟩ := Mode.start_plain hcs.1
      simp only [List.all_append, Bool.and_eq_true]
      exact ⟨⟨Mode.flush_plain hm, hstart⟩, lex_plain hmode hcs.2⟩

theorem openParens_of_bare : ∀ {ts : List Token}, ts.all Token.isBare = true →
    openParens 0 ts = some 0
  | [], _ => rfl
  | t :: ts, h => by
    rw [List.all_cons, Bool.and_eq_true] at h
    have hl : t ≠ .lparen := by
      rintro rfl
      cases h.1
    have hr : t ≠ .rparen := by
      rintro rfl
      cases h.1
    rw [openParens, if_neg hl, if_neg hr]
    exact openParens_of_bare h.2

/-- **A text of plain characters** is tidy. -/
theorem Tidy.of_plain (h : IsPlain a) : Tidy good a := by
  have hbare : (Sql.tokens a).all Token.isBare = true := lex_plain rfl h
  have hplain : ∀ t : Token, t.isBare = true → t.isPlain = true := by
    intro t ht
    cases t <;> first | rfl | cases ht
  refine .keyword (List.all_eq_true.2 fun t ht => ?_) (openParens_of_bare hbare)
  exact hplain t (List.all_eq_true.1 hbare t ht)

/-! ## Quoted text -/

/-- No apostrophe of the text follows a backslash. -/
def Unslashed (s : String) : Prop := ¬ ['\\', apostrophe] <:+: s.toList

instance (s : String) : Decidable (Unslashed s) := inferInstanceAs (Decidable (¬ _))

/-- No apostrophe of a text constant follows a backslash. -/
def UnslashedIn : Literal → Prop
  | .string s => Unslashed s
  | _ => True

instance : DecidablePred UnslashedIn
  | .string s => inferInstanceAs (Decidable (Unslashed s))
  | .null | .integer _ | .float _ | .boolean _ | .date _ | .dateTime _ | .time _ | .binary _ =>
    isTrue trivial

theorem IsPlain.unslashed (h : IsPlain a) : Unslashed a := by
  intro hin
  have hmem : apostrophe ∈ a.toList := hin.subset (List.mem_cons_of_mem _ List.mem_cons_self)
  exact absurd (List.all_eq_true.1 h _ hmem) (by decide)

/-- What is escaped ends at the apostrophe after it, unless an apostrophe in it follows a
backslash. -/
theorem lex_inside_escape {rest : List Char} (hrest : rest.head? ≠ some apostrophe)
    (before : Char) (cs : List Char) : ∀ read : List Char,
      (before = '\\' → cs.head? ≠ some apostrophe) → ¬ ['\\', apostrophe] <:+: cs →
      ∃ s, lex (.inside apostrophe read) (escapeAfter before cs ++ apostrophe :: rest) =
        .text s :: lex .between rest := by
  have hclosed : ∀ read : List Char, lex (.closed apostrophe read) rest =
      .text (String.ofList read) :: lex .between rest := by
    intro read
    have hstop : ∀ c ∈ rest.head?, (Mode.closed apostrophe read).extend? c = none := by
      intro c hc
      have : c ≠ apostrophe := fun h => hrest (by rw [← h]; exact hc)
      simp [Mode.extend?, this]
    rw [lex_stop hstop]
    simp [Mode.flush]
  fun_induction escapeAfter before cs with
  | case1 before =>
    intro read _ _
    exact ⟨_, by simpa [lex, Mode.extend?] using hclosed read⟩
  | case2 cs ih =>
    intro read hbefore _
    exact absurd rfl (hbefore rfl)
  | case3 before hbefore =>
    intro read _ _
    exact ⟨_, by simpa [lex, Mode.extend?] using hclosed (read ++ [apostrophe])⟩
  | case4 before hbefore ds ih =>
    intro read _ hin
    obtain ⟨s, hs⟩ := ih (read ++ [apostrophe]) (fun h => absurd h (by decide))
      fun h => hin (h.trans ⟨[apostrophe, apostrophe], [], by simp⟩)
    exact ⟨s, by simpa [lex, Mode.extend?] using hs⟩
  | case5 before hbefore d ds hd ih =>
    intro read _ hin
    obtain ⟨s, hs⟩ := ih (read ++ [apostrophe]) (fun h => absurd h (by decide))
      fun h => hin (h.trans ⟨[apostrophe], [], by simp⟩)
    exact ⟨s, by simpa [lex, Mode.extend?] using hs⟩
  | case6 before c cs hc ih =>
    intro read _ hin
    obtain ⟨s, hs⟩ := ih (read ++ [c])
      (fun h hhead => by
        cases cs with
        | nil => cases hhead
        | cons d ds =>
          obtain rfl : d = apostrophe := Option.some.inj hhead
          exact hin ⟨[], ds, by simp [h]⟩)
      fun h => hin (h.trans ⟨[c], [], by simp⟩)
    exact ⟨s, by simpa [lex, Mode.extend?, hc] using hs⟩

omit [Composable good] in
theorem exists_reads_quoted {s : String} (h : Unslashed s) : ∃ t, ∀ rest, Stops rest →
    lex (.inside apostrophe []) (escapeAfter (Char.ofNat 0) s.toList ++ apostrophe :: rest) =
      .text t :: lex .between rest := by
  -- the text that is read depends on the escapes, not on what follows
  have hnothing : ([] : List Char).head? ≠ some apostrophe := by simp
  obtain ⟨t, ht⟩ := lex_inside_escape hnothing (Char.ofNat 0) s.toList []
    (fun h => absurd h (by decide)) h
  refine ⟨t, fun rest hrest => ?_⟩
  have happend := lex_append_of_closed hrest (m := .inside apostrophe [])
    (escapeAfter (Char.ofNat 0) s.toList ++ [apostrophe]) (show apostrophe ∉ stopChars by decide)
    (by rw [ht]; simp [lex, Mode.flush])
  rw [List.append_assoc, List.singleton_append] at happend
  rw [happend, ht]
  rfl

omit [Composable good] in
/-- A quoted text is one token. -/
theorem reads_quoted {s : String} (h : Unslashed s) : ∃ t, Reads (quoted s) [.text t] := by
  obtain ⟨t, ht⟩ := exists_reads_quoted h
  refine ⟨t, fun rest hrest => ?_⟩
  have htext : (quoted s).toList ++ rest =
      apostrophe :: (escapeAfter (Char.ofNat 0) s.toList ++ apostrophe :: rest) := by
    simp [quoted]
  rw [htext, lex_between_cons]
  exact ht rest hrest

omit [Composable good] in
theorem reads_national {s : String} (h : Unslashed s) : ∃ t, Reads (national s) [.text t] := by
  obtain ⟨t, ht⟩ := exists_reads_quoted h
  refine ⟨t, fun rest hrest => ?_⟩
  have htext : (national s).toList ++ rest =
      'N' :: apostrophe :: (escapeAfter (Char.ofNat 0) s.toList ++ apostrophe :: rest) := by
    simp [national, quoted]
  rw [htext, lex_between_cons]
  exact ht rest hrest

/-- **A quoted text** is tidy. -/
theorem Tidy.quoted {s : String} (h : Unslashed s) : Tidy good (quoted s) := by
  obtain ⟨t, ht⟩ := reads_quoted h
  exact ⟨[.text t], ht, .of_plain rfl rfl⟩

theorem Tidy.national {s : String} (h : Unslashed s) : Tidy good (national s) := by
  obtain ⟨t, ht⟩ := reads_national h
  exact ⟨[.text t], ht, .of_plain rfl rfl⟩

/-! ## Constants -/

theorem isPlain_padded (width n : Nat) : IsPlain (padded width n) :=
  List.all_eq_true.2 fun _ hc => isPlainChar_of_isDigit (isDigit_of_mem_padded hc)

theorem isPlain_natural (n : Nat) : IsPlain (natural n) :=
  isPlain_ofList fun _ hc => isPlainChar_of_isDigit (isDigit_of_mem_digits hc)

theorem isPlain_integer : ∀ i : Int, IsPlain (integer i)
  | .ofNat n => isPlain_natural n
  | .negSucc n => isPlain_append.2 ⟨rfl, isPlain_natural (n + 1)⟩

/-- Digits keep their characters when a point and zeros are put among them. -/
theorem forall_mem_positionalText {p : Char → Prop} (hzero : p '0') (hpoint : p '.')
    {ds : List Char} (hds : ∀ c ∈ ds, p c) (k : Int) :
    ∀ c ∈ floatStyle.positionalText ds k, p c := by
  have hzeros : ∀ n, ∀ c ∈ Number.DecimalStyle.zeros n, p c := by
    intro n c hc
    obtain rfl := (List.mem_replicate.1 hc).2
    exact hzero
  intro c hc
  unfold Number.DecimalStyle.positionalText at hc
  simp only [floatStyle, Bool.false_eq_true, if_false, List.append_nil] at hc
  split_ifs at hc
  · rcases List.mem_append.1 hc with hc | hc
    · exact hds c hc
    · exact hzeros _ c hc
  · simp only [List.append_assoc, List.mem_append, List.mem_singleton] at hc
    rcases hc with hc | rfl | hc
    · exact hds c (List.mem_of_mem_take hc)
    · exact hpoint
    · exact hds c (List.mem_of_mem_drop hc)
  · simp only [List.append_assoc, List.mem_append, List.mem_cons, List.not_mem_nil, or_false] at hc
    rcases hc with (rfl | rfl) | hc | hc
    · exact hzero
    · exact hpoint
    · exact hzeros _ c hc
    · exact hds c hc

/-- A double is written with digits, a point and a sign. -/
theorem forall_mem_float {p : Char → Prop} (hdigit : ∀ c, isDigit c = true → p c) (hpoint : p '.')
    (hminus : p '-') (x : Number.Binary64) : ∀ c ∈ (float x).toList, p c := by
  have hbody : ∀ c ∈ if x.isZero then ['0'] else
      floatStyle.positionalText (digits (x.shortest .up).1) (x.shortest .up).2, p c := by
    intro c hc
    split at hc
    · obtain rfl := List.mem_singleton.1 hc
      exact hdigit _ (by decide)
    · exact forall_mem_positionalText (hdigit _ (by decide)) hpoint
        (fun d hd => hdigit d (isDigit_of_mem_digits hd)) _ c hc
  intro c hc
  rw [float, Number.DecimalStyle.render, String.toList_ofList] at hc
  split at hc
  · rcases List.mem_cons.1 hc with rfl | hc
    · exact hminus
    · exact hbody c hc
  · exact hbody c hc

theorem isPlain_yearText (y : Int) : IsPlain (Calendar.yearText y) := by
  unfold Calendar.yearText
  simp only
  split_ifs
  · exact isPlain_append.2 ⟨rfl, isPlain_padded 4 _⟩
  · exact isPlain_append.2 ⟨rfl, isPlain_padded 4 _⟩
  · exact isPlain_padded 4 _

theorem isPlain_date (d : Calendar.Date) : IsPlain d.text := by
  simp only [Calendar.Date.text, isPlain_append]
  exact ⟨⟨⟨⟨isPlain_yearText _, rfl⟩, isPlain_padded 2 _⟩, rfl⟩, isPlain_padded 2 _⟩

theorem isPlain_time (t : Calendar.TimeOfDay) : IsPlain t.milliText := by
  simp only [Calendar.TimeOfDay.milliText, Calendar.TimeOfDay.clock, isPlain_append]
  refine ⟨⟨⟨⟨⟨⟨?_, rfl⟩, ?_⟩, rfl⟩, ?_⟩, rfl⟩, ?_⟩
  all_goals exact isPlain_padded _ _

theorem isPlain_timestamp (t : Calendar.Timestamp) : IsPlain t.milliText := by
  simp only [Calendar.Timestamp.milliText, isPlain_append]
  exact ⟨⟨isPlain_date _, rfl⟩, isPlain_time _⟩

/-- The character has no part in names, texts, blanks and the words of joins. -/
def isCalmChar (c : Char) : Bool :=
  isPlainChar c && c != ' ' && c.toUpper != 'J' && c.toUpper != 'T'

/-- A text such as a number. -/
structure IsCalm (text : String) : Prop where
  nonempty : text.toList ≠ []
  calm : ∀ c ∈ text.toList, isCalmChar c = true

theorem IsCalm.isPlain {text : String} (h : IsCalm text) : IsPlain text := by
  refine List.all_eq_true.2 fun c hc => ?_
  have hcalm := h.calm c hc
  simp only [isCalmChar, Bool.and_eq_true] at hcalm
  exact hcalm.1.1.1

theorem toUpper_of_isDigit {c : Char} (h : isDigit c = true) : c.toUpper = c := by
  rw [isDigit, Bool.and_eq_true, decide_eq_true_eq, decide_eq_true_eq] at h
  unfold Char.toUpper
  rw [dif_neg]
  rintro ⟨hlower, -⟩
  exact absurd (UInt32.le_trans hlower h.2) (by decide)

theorem isCalmChar_of_isDigit {c : Char} (h : isDigit c = true) : isCalmChar c = true := by
  have hne : ∀ d, isDigit d = false → c ≠ d := by
    rintro d hd rfl
    rw [h] at hd
    cases hd
  simp only [isCalmChar, toUpper_of_isDigit h, isPlainChar_of_isDigit h, Bool.and_eq_true,
    bne_iff_ne, true_and]
  exact ⟨⟨hne _ (by decide), hne _ (by decide)⟩, hne _ (by decide)⟩

theorem isCalm_natural (n : Nat) : IsCalm (natural n) where
  nonempty := natural_ne_nil n
  calm c hc := isCalmChar_of_isDigit (List.all_eq_true.1 (all_isDigit_natural n) c hc)

theorem isCalm_integer : ∀ i : Int, IsCalm (integer i)
  | .ofNat n => isCalm_natural n
  | .negSucc n => by
    have hnatural := isCalm_natural (n + 1)
    refine ⟨by simp [integer], fun c hc => ?_⟩
    rw [integer, String.toList_append, List.mem_append] at hc
    rcases hc with hc | hc
    · obtain rfl := List.mem_singleton.1 hc
      decide
    · exact hnatural.calm c hc

theorem positionalText_ne_nil {ds : List Char} (hds : ds ≠ []) (k : Int) :
    floatStyle.positionalText ds k ≠ [] := by
  unfold Number.DecimalStyle.positionalText
  simp only
  split_ifs <;> simp [hds]

theorem isCalm_float (x : Number.Binary64) : IsCalm (float x) where
  nonempty := by
    have hbody : (if x.isZero then ['0'] else
        floatStyle.positionalText (digits (x.shortest .up).1) (x.shortest .up).2) ≠ [] := by
      split
      · simp
      · exact positionalText_ne_nil (digits_ne_nil _) _
    rw [float, Number.DecimalStyle.render, String.toList_ofList]
    split
    · simp
    · exact hbody
  calm := forall_mem_float (fun _ => isCalmChar_of_isDigit) (by decide) (by decide) x

theorem isCalm_hex (bytes : List UInt8) : IsCalm (hex bytes) where
  nonempty := by simp [hex]
  calm := forall_mem_hex (by decide) (by decide) bytes

/-- The text of a constant is a number or the like, or it stands between apostrophes. -/
inductive ConstantText : String → Prop
  | calm {text : String} : IsCalm text → ConstantText text
  | quoted {s : String} : Unslashed s → ConstantText (quoted s)
  | national {s : String} : Unslashed s → ConstantText (national s)

theorem constantText_literal {v : Literal} (h : UnslashedIn v) (ty : Option ColumnType) :
    ConstantText (literal v ty) := by
  unfold literal
  split
  · exact .calm ⟨by decide, List.all_eq_true.1 (by decide)⟩
  · exact .calm (isCalm_integer _)
  · exact .calm (isCalm_float _)
  · exact .calm (isCalm_hex _)
  · exact .quoted h
  · exact .national h
  · exact .national (isPlain_integer _).unslashed
  · exact .quoted (isPlain_integer _).unslashed
  · exact .calm (isCalm_float _)
  · exact .calm (isCalm_integer _)
  · exact .calm (isCalm_integer _)
  · exact .calm (isCalm_float _)
  · split_ifs
    · exact .calm ⟨by decide, List.all_eq_true.1 (by decide)⟩
    · exact .calm ⟨by decide, List.all_eq_true.1 (by decide)⟩
  · exact .quoted (isPlain_date _).unslashed
  · exact .quoted (isPlain_date _).unslashed
  · exact .quoted (isPlain_time _).unslashed
  · exact .quoted (isPlain_timestamp _).unslashed
  · exact .quoted (isPlain_time _).unslashed
  · exact .calm (isCalm_hex _)

theorem ConstantText.tidy {text : String} (h : ConstantText text) : Tidy good text := by
  cases h with
  | calm h => exact .of_plain h.isPlain
  | quoted h => exact .quoted h
  | national h => exact .national h

/-- **The text of a constant** is tidy, whatever column it is bound to. -/
theorem Tidy.literal {v : Literal} (h : UnslashedIn v) (ty : Option ColumnType) :
    Tidy good (literal v ty) := (constantText_literal h ty).tidy

end Transact.Sql
