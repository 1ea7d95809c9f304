import Transact.Proofs.Sql.JoinReader

/-!
# Clauses

A clause is a text that can stand in a condition of a join: all that it opens ends, and none of its
words is taken for the keyword of a join. It is snug when no blank stands around it.

* `Clause.separated`, `Clause.enclosed`, `Clause.followed`: clauses are put together with operators,
  parentheses and keywords.
* `Clause.regular`: an identifier is a clause, whatever words are in it.
* `ConstantText.clause`, `ConstantText.begins`, `ConstantText.ends`: the text of a constant is a
  snug clause.
-/

set_option autoImplicit false

namespace Transact.Sql

open Text

/-! ## Clauses -/

/-- None of the tokens is taken for the keyword of a join, when an expression begins with them. -/
def IsQuiet (ts : List Token) : Prop := ∃ b, completion false ts = some b

/-- The text can stand in a condition. -/
def Clause (text : String) : Prop := Tidy IsQuiet text

/-- After the tokens another expression begins, and before them one may have ended. -/
def Bridges (ts : List Token) : Prop := ∀ b, completion b ts = some false

instance (ts : List Token) : Decidable (Bridges ts) :=
  decidable_of_iff (completion true ts = some false ∧ completion false ts = some false)
    ⟨fun h b => by cases b with | true => exact h.1 | false => exact h.2,
      fun h => ⟨h true, h false⟩⟩

instance : Composable fun _ => True := ⟨trivial, fun _ _ => trivial, fun _ => trivial⟩

theorem Settled.forget {good : List Token → Prop} {ts : List Token} (h : Settled good ts) :
    Settled (fun _ => True) ts := ⟨h.ends, h.matched, trivial⟩

theorem Settled.quiet {ts : List Token} (h : Settled (fun _ => True) ts) (hquiet : IsQuiet ts) :
    Settled IsQuiet ts := ⟨h.ends, h.matched, hquiet⟩

theorem Bridges.isQuiet {as ss bs : List Token} (ha : IsQuiet as) (hs : Bridges ss)
    (hb : IsQuiet bs) : IsQuiet (as ++ (ss ++ bs)) := by
  obtain ⟨b, ha⟩ := ha
  obtain ⟨b', hb⟩ := hb
  refine ⟨b', ?_⟩
  rw [completion_append _ ha, completion_append _ (hs b), hb]

/-- What stands between an expression and one in parentheses. -/
structure Opener (mid : String) : Prop where
  leads : Leads mid (tokens mid)
  starts : Starts mid
  opens : ∃ ms, tokens mid = ms ++ [.lparen] ∧ ms.all Token.isPlain = true ∧
    openParens 0 ms = some 0
  bridges : Bridges (tokens mid)

theorem opener_paren : Opener "(" :=
  ⟨fun _ => rfl, rfl, ⟨[], by decide, by decide, by decide⟩, by decide⟩

theorem opener_blank : Opener " (" :=
  ⟨fun _ => rfl, rfl, ⟨[], by decide, by decide, by decide⟩, by decide⟩

namespace Clause

variable {a b : String}

/-- All that a clause opens ends in it. -/
theorem forget (h : Clause a) : Tidy (fun _ => True) a := by
  obtain ⟨as, hreads, has⟩ := h
  exact ⟨as, hreads, has.forget⟩

theorem empty : Clause "" := ⟨[], fun _ _ => rfl, by simp, rfl, false, rfl⟩

/-- A closed text of fixed words. -/
theorem of_isClosed (h : IsClosed a) (hquiet : (completion false (tokens a)).isSome = true) :
    Clause a := Tidy.of_isClosed h (Option.isSome_iff_exists.1 hquiet)

/-- **Two clauses** with an operator between them. -/
theorem separated {sep : String} (ha : Clause a) (hsep : Separator sep)
    (hbridges : Bridges (tokens sep)) (hb : Clause b) : Clause (a ++ sep ++ b) := by
  obtain ⟨as, hreads, has⟩ := ha
  obtain ⟨bs, hreads', hbs⟩ := hb
  have hsettled : Settled (fun _ => True) (tokens sep) := .of_plain hsep.plain hsep.matched
  refine ⟨_, (hreads.lead hsep.leads hsep.starts).read hreads', ?_⟩
  rw [List.append_assoc]
  exact (has.forget.append (hsettled.append hbs.forget)).quiet (hbridges.isQuiet has.good hbs.good)

/-- **A clause in parentheses**, after another one and what stands before the parentheses. -/
theorem enclosed {mid : String} (ha : Clause a) (hmid : Opener mid) (hb : Clause b) :
    Clause (a ++ mid ++ b ++ ")") := by
  obtain ⟨as, hreads, has⟩ := ha
  obtain ⟨bs, hreads', hbs⟩ := hb
  obtain ⟨ms, hms, hplain, hmatched⟩ := hmid.opens
  have hclose : Leads ")" [.rparen] := fun _ => rfl
  refine ⟨_, (((hreads.lead hmid.leads hmid.starts).read hreads').lead hclose rfl).reads, ?_⟩
  have hquiet : IsQuiet (as ++ tokens mid ++ bs ++ [.rparen]) := by
    obtain ⟨c, hc⟩ := hmid.bridges.isQuiet has.good hbs.good
    refine ⟨true, ?_⟩
    rw [List.append_assoc as, completion_append _ hc]
    cases c <;> rfl
  have hparens : as ++ tokens mid ++ bs ++ [.rparen] =
      as ++ (ms ++ (.lparen :: (bs ++ [.rparen]))) := by
    simp [hms]
  have hsettled : Settled (fun _ => True) (as ++ (ms ++ (.lparen :: (bs ++ [.rparen])))) :=
    has.forget.append ((Settled.of_plain hplain hmatched).append hbs.forget.parens)
  exact (hparens ▸ hsettled).quiet hquiet

/-- A clause after `DISTINCT`. -/
theorem distinct (hb : Clause b) : Clause ("DISTINCT " ++ b) := by
  obtain ⟨bs, hreads, hbs⟩ := hb
  have hleads : Leads "DISTINCT " [.word "DISTINCT"] := fun _ => rfl
  have hsettled : Settled (fun _ => True) [.word "DISTINCT"] := .of_plain rfl rfl
  refine ⟨_, hleads.read hreads, (hsettled.append hbs.forget).quiet ?_⟩
  obtain ⟨c, hc⟩ := hbs.good
  exact ⟨c, hc⟩

/-- A clause before fixed words. -/
theorem followed {tail : String} (ha : Clause a) (htail : IsClosed tail)
    (hquiet : ∀ c, (completion c (tokens tail)).isSome = true) (hstops : Stops tail.toList) :
    Clause (a ++ tail) := by
  obtain ⟨as, hreads, has⟩ := ha
  have hsettled : Settled (fun _ => True) (tokens tail) := ⟨htail.1, htail.2, trivial⟩
  refine ⟨_, hreads.append (.of_closed htail.1) hstops, (has.forget.append hsettled).quiet ?_⟩
  obtain ⟨c, hc⟩ := has.good
  obtain ⟨d, hd⟩ := Option.isSome_iff_exists.1 (hquiet c)
  exact ⟨d, by rw [completion_append _ hc, hd]⟩

/-- A text without words of joins. -/
theorem of_unjoined (h : Tidy (fun _ => True) a) (hjoins : ∀ t ∈ tokens a, t.joins = false) :
    Clause a := by
  have hquiet : ∀ (ts : List Token) (c : Bool), (∀ t ∈ ts, t.joins = false) →
      ∃ b, completion c ts = some b := by
    intro ts
    induction ts with
    | nil => exact fun c _ => ⟨c, rfl⟩
    | cons t ts ih =>
      intro c hts
      obtain ⟨b, hb⟩ := ih t.completes fun u hu => hts u (List.mem_cons_of_mem _ hu)
      refine ⟨b, ?_⟩
      rw [completion, hts t List.mem_cons_self, Bool.and_false, if_neg (by decide), hb]
  exact Tidy.of_isClosed h.isClosed (hquiet _ false hjoins)

theorem name (s : String) : Clause (Sql.name s) := ⟨[.name s], .name s, by simp, rfl, _, rfl⟩

/-- Names with dots between them. -/
theorem path {names : List String} (h : names ≠ []) :
    Clause (join "." (names.map Sql.name)) := by
  have hnames : ∀ (ss : List String), ∀ t ∈ pathTokens ss, t.joins = false := by
    intro ss
    fun_induction pathTokens ss with
    | case1 => simp
    | case2 s => simp [Token.joins, Token.capitals]
    | case3 s t rest ih => simpa [Token.joins, Token.capitals] using ih
  refine of_unjoined (.joined separator_dot fun text ht => ?_) ?_
  · obtain ⟨n, -, rfl⟩ := List.mem_map.1 ht
    exact .name trivial
  · rw [(Reads.path h).tokens_eq]
    exact hnames names

end Clause

/-! ## Identifiers -/

/-- A character of an identifier that needs no brackets. -/
def isRegularChar (c : Char) : Bool :=
  isWordChar c || ['@', '#', '$'].contains c || decide (128 ≤ c.toNat)

/-- The text is an identifier that needs no brackets. -/
def isRegular (text : String) : Bool :=
  !text.toList.isEmpty && text.toList.all isRegularChar

theorem ne_of_isRegularChar {c d : Char} (hc : isRegularChar c = true)
    (hd : isRegularChar d = false) : c ≠ d := by
  rintro rfl
  rw [hc] at hd
  cases hd

theorem isPlainChar_of_isRegularChar {c : Char} (h : isRegularChar c = true) :
    isPlainChar c = true := by
  have hne : ∀ d, isRegularChar d = false → c ≠ d := fun _ => ne_of_isRegularChar h
  simp only [isPlainChar, Bool.and_eq_true, bne_iff_ne]
  exact ⟨⟨⟨hne _ (by decide), hne _ (by decide)⟩, hne _ (by decide)⟩, hne _ (by decide)⟩

theorem Mode.start_regular {c : Char} (h : isRegularChar c = true)
    (hword : isWordChar c = false) : start c = ([.other c], .between) := by
  have hne : ∀ d, isRegularChar d = false → c ≠ d := fun _ => ne_of_isRegularChar h
  have hsign : isSignChar c = false := by
    by_contra hsign
    have hsigns : signChars.all (fun d => isRegularChar d == false) = true := by decide
    rw [Bool.not_eq_false] at hsign
    have hregular := List.all_eq_true.1 hsigns c (List.contains_iff_mem.1 hsign)
    exact hne c (beq_iff_eq.1 hregular) rfl
  rw [start, if_neg (hne _ (by decide)), if_neg (hne _ (by decide)), if_neg (hne _ (by decide)),
    if_neg (hne _ (by decide)), if_neg (hne _ (by decide)), if_neg (hne _ (by decide)), hword,
    hsign]
  rfl

/-- No word in an identifier is taken for the keyword of a join, as no other word comes right before
it. -/
theorem isQuiet_regular : ∀ {cs : List Char}, cs.all isRegularChar = true →
    IsQuiet (lex .between cs) ∧ ∀ read, IsQuiet (lex (.word read) cs)
  | [], _ => ⟨⟨_, rfl⟩, fun _ => ⟨_, rfl⟩⟩
  | c :: cs, h => by
    rw [List.all_cons, Bool.and_eq_true] at h
    obtain ⟨⟨b, hbetween⟩, hword⟩ := isQuiet_regular h.2
    by_cases hc : isWordChar c = true
    · rw [lex_between_cons, Mode.start_word hc]
      refine ⟨hword [c], fun read => ?_⟩
      rw [lex, Mode.extend?, if_pos hc]
      exact hword _
    · have hstart := Mode.start_regular h.1 (Bool.eq_false_iff.2 hc)
      have hapostrophe : c ≠ apostrophe := ne_of_isRegularChar h.1 (by decide)
      rw [lex_between_cons, hstart]
      refine ⟨⟨b, hbetween⟩, fun read => ⟨b, ?_⟩⟩
      rw [lex, Mode.extend?, if_neg hc, if_neg (by simp [hapostrophe]), hstart]
      simp [completion, hbetween, Token.joins, Token.capitals, Token.completes, Mode.flush]

theorem isRegular_iff {text : String} : isRegular text = true ↔
    text.toList ≠ [] ∧ text.toList.all isRegularChar = true := by
  rw [isRegular, Bool.and_eq_true, Bool.not_eq_true', List.isEmpty_eq_false_iff]

/-- **An identifier** is a clause. -/
theorem Clause.regular {text : String} (h : isRegular text = true) : Clause text := by
  obtain ⟨-, hchars⟩ := isRegular_iff.1 h
  have hplain : IsPlain text := List.all_eq_true.2 fun c hc =>
    isPlainChar_of_isRegularChar (List.all_eq_true.1 hchars c hc)
  have htidy : Tidy (fun _ => True) text := .of_plain hplain
  exact Tidy.of_isClosed htidy.isClosed (isQuiet_regular hchars).1

/-! ## Snug texts -/

/-- The text begins with a character that is no blank. -/
def Begins (text : String) : Prop := ∃ c cs, text.toList = c :: cs ∧ c ≠ ' '

/-- The text ends with a character that is no blank. -/
def Ends (text : String) : Prop := ∃ cs c, text.toList = cs ++ [c] ∧ c ≠ ' '

theorem Begins.append {a : String} (h : Begins a) (b : String) : Begins (a ++ b) := by
  obtain ⟨c, cs, hcs, hc⟩ := h
  exact ⟨c, cs ++ b.toList, by rw [String.toList_append, hcs]; rfl, hc⟩

theorem Ends.append {b : String} (h : Ends b) (a : String) : Ends (a ++ b) := by
  obtain ⟨cs, c, hcs, hc⟩ := h
  exact ⟨a.toList ++ cs, c, by rw [String.toList_append, hcs, List.append_assoc], hc⟩

theorem begins_of_forall {text : String} (hne : text.toList ≠ []) (h : ∀ c ∈ text.toList, c ≠ ' ') :
    Begins text := by
  obtain ⟨c, cs, hcs⟩ := List.exists_cons_of_ne_nil hne
  exact ⟨c, cs, hcs, h c (by rw [hcs]; exact List.mem_cons_self)⟩

theorem ends_of_forall {text : String} (hne : text.toList ≠ []) (h : ∀ c ∈ text.toList, c ≠ ' ') :
    Ends text := by
  refine ⟨_, text.toList.getLast hne, (List.dropLast_append_getLast hne).symm, ?_⟩
  exact h _ (List.getLast_mem hne)

theorem ne_blank_of_isRegular {text : String} (h : isRegular text = true) :
    ∀ c ∈ text.toList, c ≠ ' ' := fun c hc =>
  ne_of_isRegularChar (List.all_eq_true.1 (isRegular_iff.1 h).2 c hc) (by decide)

theorem begins_regular {text : String} (h : isRegular text = true) : Begins text :=
  begins_of_forall (isRegular_iff.1 h).1 (ne_blank_of_isRegular h)

theorem ends_regular {text : String} (h : isRegular text = true) : Ends text :=
  ends_of_forall (isRegular_iff.1 h).1 (ne_blank_of_isRegular h)

theorem begins_name (s : String) : Begins (name s) := by
  refine ⟨'[', double ']' s.toList ++ [']'], ?_, by decide⟩
  simp [name, bracketed]

theorem ends_name (s : String) : Ends (name s) := by
  refine ⟨'[' :: double ']' s.toList, ']', ?_, by decide⟩
  simp [name, bracketed]

theorem begins_path : ∀ {names : List String}, names ≠ [] →
    Begins (join "." (names.map Sql.name))
  | [s], _ => begins_name s
  | s :: _ :: _, _ => ((begins_name s).append _).append _

theorem ends_path : ∀ {names : List String}, names ≠ [] → Ends (join "." (names.map Sql.name))
  | [s], _ => ends_name s
  | _ :: t :: rest, _ => (ends_path (List.cons_ne_nil t rest)).append _

theorem isSnug_iff {text : String} : IsSnug text.toList ↔ Begins text ∧ Ends text :=
  ⟨fun h => ⟨h.head, h.last⟩, fun h => ⟨h.1, h.2⟩⟩

/-! ## Constants -/

/-- The characters of the token that is being read. -/
def Mode.chars : Mode → List Char
  | .between => []
  | .inside _ read => read
  | .closed _ read => read
  | .word read => read
  | .sign read => read

theorem Mode.mem_chars_extend? {m m' : Mode} {c d : Char} (h : m.extend? c = some m')
    (hd : d ∈ m'.chars) : d ∈ m.chars ∨ d = c := by
  cases m with
  | between => cases h
  | inside close read =>
    obtain rfl := Option.some.inj h
    split at hd
    · exact .inl hd
    · simpa [chars] using hd
  | closed close read =>
    rw [extend?] at h
    split at h
    · obtain rfl := Option.some.inj h
      simpa [chars] using hd
    · cases h
  | word read =>
    rw [extend?] at h
    split at h
    · obtain rfl := Option.some.inj h
      simpa [chars] using hd
    · split at h
      · obtain rfl := Option.some.inj h
        cases hd
      · cases h
  | sign read =>
    rw [extend?] at h
    split at h
    · obtain rfl := Option.some.inj h
      simpa [chars] using hd
    · cases h

theorem Mode.mem_chars_of_flush {m : Mode} {w : String} (h : .word w ∈ m.flush) {c : Char}
    (hc : c ∈ w.toList) : c ∈ m.chars := by
  cases m with
  | word read =>
    obtain rfl : w = String.ofList read := Token.word.inj (List.mem_singleton.1 h)
    rwa [String.toList_ofList] at hc
  | closed close read =>
    have := List.mem_singleton.1 h
    split at this <;> cases this
  | between | inside _ _ | sign _ => simp [flush] at h

theorem Mode.mem_chars_start {c d : Char} (hd : d ∈ (start c).2.chars) : d = c := by
  generalize hstart : start c = p at hd
  unfold start at hstart
  split_ifs at hstart <;> subst hstart <;> first
    | exact List.mem_singleton.1 hd
    | exact absurd hd List.not_mem_nil

theorem Mode.word_notMem_start (c : Char) (w : String) : .word w ∉ (start c).1 := by
  generalize hstart : start c = p
  unfold start at hstart
  split_ifs at hstart <;> subst hstart <;> simp

/-- Words are made of the characters of the text. -/
theorem mem_of_word_mem_lex {w : String} {d : Char} (hd : d ∈ w.toList) :
    ∀ {cs : List Char} {m : Mode}, .word w ∈ lex m cs → d ∈ m.chars ∨ d ∈ cs
  | [], m, h => .inl (Mode.mem_chars_of_flush h hd)
  | c :: cs, m, h => by
    rw [lex] at h
    cases hnext : m.extend? c with
    | some m' =>
      rw [hnext] at h
      rcases mem_of_word_mem_lex hd h with hchars | hcs
      · rcases Mode.mem_chars_extend? hnext hchars with hm | rfl
        · exact .inl hm
        · exact .inr List.mem_cons_self
      · exact .inr (List.mem_cons_of_mem _ hcs)
    | none =>
      rw [hnext] at h
      simp only [List.mem_append, Mode.word_notMem_start, or_false] at h
      rcases h with hflush | hrest
      · exact .inl (Mode.mem_chars_of_flush hflush hd)
      · rcases mem_of_word_mem_lex hd hrest with hchars | hcs
        · exact .inr (Mode.mem_chars_start hchars ▸ List.mem_cons_self)
        · exact .inr (List.mem_cons_of_mem _ hcs)

namespace IsCalm

variable {text : String}

theorem ne_blank (h : IsCalm text) : ∀ c ∈ text.toList, c ≠ ' ' := by
  rintro c hc rfl
  exact absurd (h.calm _ hc) (by decide)

theorem isSnug (h : IsCalm text) : IsSnug text.toList :=
  isSnug_iff.2 ⟨begins_of_forall h.nonempty h.ne_blank, ends_of_forall h.nonempty h.ne_blank⟩

/-- A word of a calm text lacks a letter of the words of joins. -/
theorem joins_eq_false (h : IsCalm text) : ∀ t ∈ tokens text, t.joins = false := by
  intro t ht
  cases t with
  | word w =>
    have hchars : ∀ d ∈ w.toList, isCalmChar d = true := by
      intro d hd
      rcases mem_of_word_mem_lex hd ht with hnone | hmem
      · cases hnone
      · exact h.calm d hmem
    have hletter : ∀ d ∈ (Token.word w).capitals.toList, d ≠ 'J' ∧ d ≠ 'T' := by
      intro d hd
      rw [Token.capitals, String.toList_ofList] at hd
      obtain ⟨c, hc, rfl⟩ := List.mem_map.1 hd
      have hcalm := hchars c hc
      simp only [isCalmChar, Bool.and_eq_true, bne_iff_ne] at hcalm
      exact ⟨hcalm.1.2, hcalm.2⟩
    rw [Token.joins, Bool.or_eq_false_iff, beq_eq_false_iff_ne, beq_eq_false_iff_ne]
    constructor
    · intro hw
      rw [hw] at hletter
      exact (hletter 'J' (by decide)).1 rfl
    · intro hw
      rw [hw] at hletter
      exact (hletter 'T' (by decide)).2 rfl
  | name _ | text _ | sign _ | dot | lparen | rparen | other _ | unclosed => rfl

theorem clause (h : IsCalm text) : Clause text :=
  .of_unjoined (.of_plain h.isPlain) h.joins_eq_false

end IsCalm

namespace ConstantText

variable {text : String}

/-- **The text of a constant** is a clause. -/
theorem clause (h : ConstantText text) : Clause text := by
  cases h with
  | calm h => exact h.clause
  | quoted h =>
    obtain ⟨t, ht⟩ := reads_quoted h
    exact ⟨[.text t], ht, by simp, rfl, _, rfl⟩
  | national h =>
    obtain ⟨t, ht⟩ := reads_national h
    exact ⟨[.text t], ht, by simp, rfl, _, rfl⟩

theorem begins (h : ConstantText text) : Begins text := by
  cases h with
  | calm h => exact (isSnug_iff.1 h.isSnug).1
  | quoted h => exact ⟨apostrophe, _, by rw [Sql.quoted, String.toList_ofList]; rfl, by decide⟩
  | national h => exact Begins.append ⟨'N', [], rfl, by decide⟩ _

theorem ends (h : ConstantText text) : Ends text := by
  cases h with
  | calm h => exact (isSnug_iff.1 h.isSnug).2
  | quoted h => exact ⟨_, apostrophe, by rw [Sql.quoted, String.toList_ofList], by decide⟩
  | national h =>
    exact Ends.append ⟨_, apostrophe, by rw [Sql.quoted, String.toList_ofList], by decide⟩ _

end ConstantText

end Transact.Sql
