import Transact.Plan.Fresh
import Transact.Proofs.Sql.QuotedText
import Transact.Proofs.Text.Digits
import Transact.Sql.Name

/-!
# Tokens of SQL

The server reads a text as tokens: names in brackets, texts between apostrophes, words, operator
signs, dots and parentheses. `tokens` is a machine that takes the text character by character; the
delimiter of a name or a text stands for itself when it is doubled.

* `lex_inside_double`: what is doubled is read back, whichever the delimiter.
* `lex_name`: a name is read back, whatever it contains and whatever follows.
* `Reads`: a text is read as these tokens wherever a blank, a parenthesis, a comma, a dot or nothing
  follows. `Leads`: a text is read as these tokens whatever follows. `Reads.lead` and `Leads.read`
  put texts together.
* `Reads.of_closed`: a text whose names and texts all end is read as its tokens.
-/

set_option autoImplicit false

namespace Transact.Sql

open Text

/-! ## The machine -/

/-- A token. -/
inductive Token where
  | name (s : String)
  | text (s : String)
  | word (s : String)
  | sign (s : String)
  | dot
  | lparen
  | rparen
  | other (c : Char)
  /-- a name or a text that does not end -/
  | unclosed
deriving DecidableEq

/-- The characters of operator signs. -/
def signChars : List Char := ['=', '<', '>', '!', '+', '-', '*', '/', '%']

def isSignChar (c : Char) : Bool := signChars.contains c

/-- What is being read. -/
inductive Mode where
  | between
  /-- a name or a text, up to the character that closes it -/
  | inside (close : Char) (read : List Char)
  /-- the same after a closing character, which may be the first of two -/
  | closed (close : Char) (read : List Char)
  | word (read : List Char)
  | sign (read : List Char)
deriving DecidableEq

namespace Mode

/-- The token that has been read. -/
def flush : Mode → List Token
  | .between => []
  | .inside _ _ => [.unclosed]
  | .closed close read =>
    [if close = apostrophe then .text (String.ofList read) else .name (String.ofList read)]
  | .word read => [.word (String.ofList read)]
  | .sign read => [.sign (String.ofList read)]

/-- What is being read after a character that belongs to it. An `N` right before a text belongs to
the text. -/
def extend? : Mode → Char → Option Mode
  | .between, _ => none
  | .inside close read, c =>
    some (if c = close then .closed close read else .inside close (read ++ [c]))
  | .closed close read, c => if c = close then some (.inside close (read ++ [c])) else none
  | .word read, c =>
    if isWordChar c then some (.word (read ++ [c]))
    else if c = apostrophe && read == ['N'] then some (.inside apostrophe [])
    else none
  | .sign read, c => if isSignChar c then some (.sign (read ++ [c])) else none

/-- What a character begins. -/
def start (c : Char) : List Token × Mode :=
  if c = '[' then ([], .inside ']' [])
  else if c = apostrophe then ([], .inside apostrophe [])
  else if c = '(' then ([.lparen], .between)
  else if c = ')' then ([.rparen], .between)
  else if c = '.' then ([.dot], .between)
  else if c = ' ' then ([], .between)
  else if isWordChar c then ([], .word [c])
  else if isSignChar c then ([], .sign [c])
  else ([.other c], .between)

end Mode

/-- The tokens of a text, some of which has been read already. -/
def lex : Mode → List Char → List Token
  | m, [] => m.flush
  | m, c :: cs =>
    match m.extend? c with
    | some m => lex m cs
    | none => m.flush ++ (Mode.start c).1 ++ lex (Mode.start c).2 cs

/-- The tokens of a text. -/
def tokens (text : String) : List Token := lex .between text.toList

/-! ## Names and texts -/

/-- A token ends where nothing continues it. -/
theorem lex_stop {m : Mode} {rest : List Char} (h : ∀ c ∈ rest.head?, m.extend? c = none) :
    lex m rest = m.flush ++ lex .between rest := by
  cases rest with
  | nil => simp [lex, Mode.flush]
  | cons c cs =>
    rw [lex, h c rfl, List.append_assoc]
    rfl

theorem lex_between_cons (c : Char) (cs : List Char) :
    lex .between (c :: cs) = (Mode.start c).1 ++ lex (Mode.start c).2 cs := rfl

/-- What is doubled is read back. -/
theorem lex_inside_double {close : Char} {rest : List Char} (hrest : rest.head? ≠ some close) :
    ∀ read cs : List Char, lex (.inside close read) (double close cs ++ close :: rest) =
      (Mode.closed close (read ++ cs)).flush ++ lex .between rest
  | read, [] => by
    have hclosed : ∀ c ∈ rest.head?, (Mode.closed close read).extend? c = none := by
      intro c hc
      have : c ≠ close := fun h => hrest (by rw [← h]; exact hc)
      simp [Mode.extend?, this]
    simp [double, lex, Mode.extend?, lex_stop hclosed]
  | read, c :: cs => by
    have ih := lex_inside_double hrest (read ++ [c]) cs
    by_cases hc : c = close
    · subst hc
      rw [List.append_assoc, List.singleton_append] at ih
      simpa [double, lex, Mode.extend?] using ih
    · rw [List.append_assoc, List.singleton_append] at ih
      simpa [double, lex, Mode.extend?, hc] using ih

/-- **A name is read back**, whatever it contains and whatever follows. -/
theorem lex_name (s : String) {rest : List Char} (hrest : rest.head? ≠ some ']') :
    lex .between ((name s).toList ++ rest) = .name s :: lex .between rest := by
  have h := lex_inside_double hrest [] s.toList
  have htext : (name s).toList ++ rest = '[' :: (double ']' s.toList ++ ']' :: rest) := by
    simp [name, bracketed]
  rw [htext, lex_between_cons]
  show lex (.inside ']' []) _ = _
  rw [h]
  simp [Mode.flush, show ¬ ']' = apostrophe by decide]

/-- A text constant is read back when its apostrophes stand alone. -/
theorem lex_national {s : String} (hs : ApostrophesAlone s) {rest : List Char}
    (hrest : rest.head? ≠ some apostrophe) :
    lex .between ((national s).toList ++ rest) = .text s :: lex .between rest := by
  have hescape : escapeAfter (Char.ofNat 0) s.toList = double apostrophe s.toList :=
    (escapeAfter_eq_double_iff _ _).2
      ⟨fun h => absurd h (by decide), isChain_mayFollow_iff.2 hs⟩
  have h := lex_inside_double hrest [] s.toList
  have htext : (national s).toList ++ rest =
      'N' :: apostrophe :: (double apostrophe s.toList ++ apostrophe :: rest) := by
    simp [national, quoted, hescape]
  rw [htext, lex_between_cons]
  show lex (.inside apostrophe []) _ = _
  rw [h]
  simp [Mode.flush]

/-! ## Runs of characters -/

theorem Mode.start_word {c : Char} (h : isWordChar c = true) : start c = ([], .word [c]) := by
  have hne : ∀ d, isWordChar d = false → c ≠ d := by
    rintro d hd rfl
    rw [h] at hd
    cases hd
  simp [start, hne _ (show isWordChar '[' = false by decide),
    hne _ (show isWordChar apostrophe = false by decide),
    hne _ (show isWordChar '(' = false by decide), hne _ (show isWordChar ')' = false by decide),
    hne _ (show isWordChar '.' = false by decide), hne _ (show isWordChar ' ' = false by decide), h]

theorem Mode.start_sign {c : Char} (h : isSignChar c = true) : start c = ([], .sign [c]) := by
  have hall : signChars.all (fun d => start d = ([], .sign [d])) = true := by decide
  exact of_decide_eq_true (List.all_eq_true.1 hall c (List.contains_iff_mem.1 h))

theorem lex_word {rest : List Char}
    (hrest : ∀ c ∈ rest.head?, isWordChar c = false ∧ c ≠ apostrophe) :
    ∀ read cs : List Char, (∀ c ∈ cs, isWordChar c = true) →
      lex (.word read) (cs ++ rest) = .word (String.ofList (read ++ cs)) :: lex .between rest
  | read, [], _ => by
    have hstop : ∀ c ∈ rest.head?, (Mode.word read).extend? c = none := by
      intro c hc
      simp [Mode.extend?, hrest c hc]
    simp [lex_stop hstop, Mode.flush]
  | read, c :: cs, h => by
    have ih := lex_word hrest (read ++ [c]) cs fun d hd => h d (List.mem_cons_of_mem _ hd)
    simpa [lex, Mode.extend?, h c List.mem_cons_self] using ih

theorem lex_sign {rest : List Char} (hrest : ∀ c ∈ rest.head?, isSignChar c = false) :
    ∀ read cs : List Char, (∀ c ∈ cs, isSignChar c = true) →
      lex (.sign read) (cs ++ rest) = .sign (String.ofList (read ++ cs)) :: lex .between rest
  | read, [], _ => by
    have hstop : ∀ c ∈ rest.head?, (Mode.sign read).extend? c = none := by
      intro c hc
      simp [Mode.extend?, hrest c hc]
    simp [lex_stop hstop, Mode.flush]
  | read, c :: cs, h => by
    have ih := lex_sign hrest (read ++ [c]) cs fun d hd => h d (List.mem_cons_of_mem _ hd)
    simpa [lex, Mode.extend?, h c List.mem_cons_self] using ih

/-! ## Texts that are followed by a blank -/

/-- The characters that no token goes on with, outside of names and texts. -/
def stopChars : List Char := [' ', ')', '(', ',', '.']

/-- A token ends before these characters, or at the end of the text. -/
def Stops (rest : List Char) : Prop := ∀ c ∈ rest.head?, c ∈ stopChars

/-- The text is read as these tokens, wherever it stops. -/
def Reads (text : String) (ts : List Token) : Prop :=
  ∀ rest, Stops rest → lex .between (text.toList ++ rest) = ts ++ lex .between rest

/-- The text is read as these tokens, whatever follows. -/
def Leads (text : String) (ts : List Token) : Prop :=
  ∀ rest, lex .between (text.toList ++ rest) = ts ++ lex .between rest

/-- What stands before the text stops there. -/
def Starts (text : String) : Prop := text.toList.head?.any stopChars.contains = true

theorem Stops.head?_ne {rest : List Char} (h : Stops rest) {c : Char} (hc : c ∉ stopChars) :
    rest.head? ≠ some c := fun he => hc (h c he)

theorem Starts.stops {text : String} (h : Starts text) (rest : List Char) :
    Stops (text.toList ++ rest) := by
  unfold Starts at h
  intro c hc
  cases htext : text.toList with
  | nil => simp [htext] at h
  | cons d ds =>
    rw [htext, List.head?_cons, Option.any_some, List.contains_iff_mem] at h
    rw [htext] at hc
    obtain rfl : d = c := Option.some.inj hc
    exact h

theorem stopChars_plain {c : Char} (h : c ∈ stopChars) :
    isWordChar c = false ∧ isSignChar c = false ∧ c ≠ apostrophe := by
  have hall : stopChars.all (fun d => !isWordChar d && !isSignChar d && d != apostrophe) =
      true := by
    decide
  have hc := List.all_eq_true.1 hall c h
  simp only [Bool.and_eq_true, Bool.not_eq_true', bne_iff_ne] at hc
  exact ⟨hc.1.1, hc.1.2, hc.2⟩

/-- What closes the name or text that is being read is none of the characters to stop at. -/
def Mode.Delimits : Mode → Prop
  | .inside close _ => close ∉ stopChars
  | .closed close _ => close ∉ stopChars
  | _ => True

theorem Mode.delimits_start (c : Char) : (start c).2.Delimits := by
  unfold start
  split_ifs <;> first | trivial | (show _ ∉ stopChars; decide)

theorem Mode.Delimits.extend? {m m' : Mode} (hm : m.Delimits) {c : Char}
    (h : m.extend? c = some m') : m'.Delimits := by
  cases m with
  | between => cases h
  | inside close read =>
    obtain rfl := Option.some.inj h
    split <;> exact hm
  | closed close read =>
    simp only [Mode.extend?] at h
    split at h
    · obtain rfl := Option.some.inj h
      exact hm
    · cases h
  | word read =>
    simp only [Mode.extend?] at h
    split at h
    · obtain rfl := Option.some.inj h
      trivial
    · split at h
      · obtain rfl := Option.some.inj h
        show apostrophe ∉ stopChars
        decide
      · cases h
  | sign read =>
    simp only [Mode.extend?] at h
    split at h
    · obtain rfl := Option.some.inj h
      trivial
    · cases h

theorem Mode.Delimits.extend?_stop {m : Mode} (hm : m.Delimits) (hclosed : .unclosed ∉ m.flush)
    {c : Char} (hc : c ∈ stopChars) : m.extend? c = none := by
  obtain ⟨hword, hsign, hapostrophe⟩ := stopChars_plain hc
  cases m with
  | between => rfl
  | inside close read => simp [Mode.flush] at hclosed
  | closed close read =>
    have : c ≠ close := by
      rintro rfl
      exact hm hc
    simp [Mode.extend?, this]
  | word read => simp [Mode.extend?, hword, hapostrophe]
  | sign read => simp [Mode.extend?, hsign]

/-- Where all names and texts have ended, what follows is read afresh. -/
theorem lex_append_of_closed {rest : List Char} (hrest : Stops rest) :
    ∀ {m : Mode} (cs : List Char), m.Delimits → .unclosed ∉ lex m cs →
      lex m (cs ++ rest) = lex m cs ++ lex .between rest
  | m, [], hm, hclosed => lex_stop fun _ hc => hm.extend?_stop hclosed (hrest _ hc)
  | m, c :: cs, hm, hclosed => by
    rw [lex] at hclosed
    rw [List.cons_append, lex, lex]
    cases hnext : m.extend? c with
    | some m' =>
      rw [hnext] at hclosed
      exact lex_append_of_closed hrest cs (hm.extend? hnext) hclosed
    | none =>
      rw [hnext] at hclosed
      have ih := lex_append_of_closed hrest cs (Mode.delimits_start c) fun h =>
        hclosed (List.mem_append_right _ h)
      simp only [ih, List.append_assoc]

namespace Reads

variable {a b : String} {as bs : List Token}

theorem name (s : String) : Reads (name s) [.name s] := fun _ hrest =>
  lex_name s (hrest.head?_ne (by decide))

theorem national {s : String} (hs : ApostrophesAlone s) : Reads (national s) [.text s] :=
  fun _ hrest => lex_national hs (hrest.head?_ne (by decide))

theorem word {s : String} (hs : s.toList ≠ []) (hword : s.toList.all isWordChar = true) :
    Reads s [.word s] := by
  intro rest hrest
  obtain ⟨c, cs, hcs⟩ := List.exists_cons_of_ne_nil hs
  have hstop : ∀ d ∈ rest.head?, isWordChar d = false ∧ d ≠ apostrophe := by
    intro d hd
    obtain ⟨hplain, -, hapostrophe⟩ := stopChars_plain (hrest d hd)
    exact ⟨hplain, hapostrophe⟩
  rw [hcs, List.all_eq_true] at hword
  have h := lex_word hstop [c] cs fun d hd => hword d (List.mem_cons_of_mem _ hd)
  rw [hcs, List.cons_append, lex_between_cons, Mode.start_word (hword c List.mem_cons_self)]
  show lex (.word [c]) (cs ++ rest) = _
  rw [h, List.singleton_append, ← hcs, String.ofList_toList]
  rfl

theorem sign {s : String} (hs : s.toList ≠ []) (hsign : s.toList.all isSignChar = true) :
    Reads s [.sign s] := by
  intro rest hrest
  obtain ⟨c, cs, hcs⟩ := List.exists_cons_of_ne_nil hs
  have hstop : ∀ d ∈ rest.head?, isSignChar d = false := by
    intro d hd
    exact (stopChars_plain (hrest d hd)).2.1
  rw [hcs, List.all_eq_true] at hsign
  have h := lex_sign hstop [c] cs fun d hd => hsign d (List.mem_cons_of_mem _ hd)
  rw [hcs, List.cons_append, lex_between_cons, Mode.start_sign (hsign c List.mem_cons_self)]
  show lex (.sign [c]) (cs ++ rest) = _
  rw [h, List.singleton_append, ← hcs, String.ofList_toList]
  rfl

/-- A text whose names and texts all end is read as its tokens. -/
theorem of_closed (h : .unclosed ∉ tokens a) : Reads a (tokens a) := fun _ hrest =>
  lex_append_of_closed hrest _ trivial h

/-- A text and another one that it stops at. -/
theorem append (ha : Reads a as) (hb : Reads b bs) (hstops : Stops b.toList) :
    Reads (a ++ b) (as ++ bs) := by
  intro rest hrest
  have hnext : Stops (b.toList ++ rest) := by
    cases htext : b.toList with
    | nil => exact hrest
    | cons c cs =>
      rw [htext] at hstops
      exact hstops
  rw [String.toList_append, List.append_assoc, ha _ hnext, hb rest hrest, List.append_assoc]

/-- A text and what leads on from it. -/
theorem lead (ha : Reads a as) (hb : Leads b bs) (hstarts : Starts b) :
    Leads (a ++ b) (as ++ bs) := by
  intro rest
  rw [String.toList_append, List.append_assoc, ha _ (hstarts.stops rest), hb rest,
    List.append_assoc]

end Reads

namespace Leads

variable {a b : String} {as bs : List Token}

theorem read (ha : Leads a as) (hb : Reads b bs) : Reads (a ++ b) (as ++ bs) := by
  intro rest hrest
  rw [String.toList_append, List.append_assoc, ha, hb rest hrest, List.append_assoc]

theorem lead (ha : Leads a as) (hb : Leads b bs) : Leads (a ++ b) (as ++ bs) := by
  intro rest
  rw [String.toList_append, List.append_assoc, ha, hb, List.append_assoc]

theorem reads (ha : Leads a as) : Reads a as := fun rest _ => ha rest

end Leads

namespace Reads

variable {a b : String} {as bs : List Token}

/-- **Two texts** with a blank between them are read one after the other. -/
theorem blank (ha : Reads a as) (hb : Reads b bs) : Reads (a ++ " " ++ b) (as ++ bs) := by
  have hblank : Leads " " [] := fun _ => rfl
  have h := (ha.lead hblank rfl).read hb
  rwa [List.append_nil] at h

/-- Two texts with a third between them, which is one token. -/
theorem between {w : String} {t : Token} (ha : Reads a as) (hw : Reads w [t]) (hb : Reads b bs) :
    Reads (a ++ " " ++ w ++ " " ++ b) (as ++ t :: bs) := by
  have h := (ha.blank hw).blank hb
  rwa [List.append_assoc] at h

/-- **A text in parentheses** is read between them. -/
theorem parens (ha : Reads a as) : Reads ("(" ++ a ++ ")") (.lparen :: as ++ [.rparen]) := by
  have hopen : Leads "(" [.lparen] := fun _ => rfl
  have hclose : Leads ")" [.rparen] := fun _ => rfl
  exact ((hopen.read ha).lead hclose rfl).reads

theorem tokens_eq (h : Reads a as) : tokens a = as := by
  have := h [] (by simp [Stops])
  rw [List.append_nil] at this
  rw [tokens, this]
  simp [lex, Mode.flush]

end Reads

/-! ## Integers -/

/-- The tokens of an integer. -/
def integerTokens : Int → List Token
  | .ofNat n => [.word (natural n)]
  | .negSucc n => [.sign "-", .word (natural (n + 1))]

/-- The integer that tokens stand for. -/
def integer? : List Token → Option Int
  | [.word w] =>
    if !w.toList.isEmpty && w.toList.all isDigit then some (digitsValue w.toList) else none
  | [.sign "-", .word w] =>
    if !w.toList.isEmpty && w.toList.all isDigit then some (-digitsValue w.toList) else none
  | _ => none

theorem isWordChar_of_isDigit {c : Char} (h : isDigit c = true) : isWordChar c = true := by
  simp [isWordChar, Char.isAlphanum, isDigit_iff.1 h]

theorem isSignChar_of_isDigit {c : Char} (h : isDigit c = true) : isSignChar c = false := by
  have hnone : signChars.all (fun d => !isDigit d) = true := by decide
  cases hsign : isSignChar c with
  | false => rfl
  | true =>
    have hc := List.all_eq_true.1 hnone c (List.contains_iff_mem.1 hsign)
    rw [h] at hc
    cases hc

theorem natural_ne_nil (n : Nat) : (natural n).toList ≠ [] := by
  rw [natural, String.toList_ofList]
  exact digits_ne_nil n

theorem all_isDigit_natural (n : Nat) : (natural n).toList.all isDigit = true := by
  rw [natural, String.toList_ofList, List.all_eq_true]
  exact fun c => isDigit_of_mem_digits

theorem natural_ne {n : Nat} {w : String} (hw : w.toList.all isDigit = false) : natural n ≠ w := by
  rintro rfl
  rw [all_isDigit_natural] at hw
  cases hw

theorem Reads.natural (n : Nat) : Reads (natural n) [.word (natural n)] := by
  refine Reads.word (natural_ne_nil n) (List.all_eq_true.2 fun c hc => ?_)
  exact isWordChar_of_isDigit (List.all_eq_true.1 (all_isDigit_natural n) c hc)

/-- An integer is read as the tokens that stand for it. -/
theorem Reads.integer : ∀ i : Int, Reads (integer i) (integerTokens i)
  | .ofNat n => Reads.natural n
  | .negSucc n => by
    intro rest hrest
    have hdigit : ∀ c ∈ ((Text.natural (n + 1)).toList ++ rest).head?, isSignChar c = false := by
      obtain ⟨d, ds, hds⟩ := List.exists_cons_of_ne_nil (digits_ne_nil (n + 1))
      rw [Text.natural, String.toList_ofList, hds]
      intro c hc
      obtain rfl := Option.some.inj hc
      exact isSignChar_of_isDigit (isDigit_of_mem_digits (by rw [hds]; exact List.mem_cons_self))
    have htext : (Text.integer (.negSucc n)).toList ++ rest =
        '-' :: ((Text.natural (n + 1)).toList ++ rest) := by
      simp [Text.integer]
    have h := lex_sign hdigit ['-'] [] (by simp)
    rw [htext, lex_between_cons]
    show lex (.sign ['-']) _ = _
    rw [List.nil_append] at h
    rw [h, Reads.natural (n + 1) rest hrest]
    rfl

theorem integer?_integerTokens (i : Int) : integer? (integerTokens i) = some i := by
  have hdigits : ∀ n : Nat,
      (!(natural n).toList.isEmpty && (natural n).toList.all isDigit) = true := by
    intro n
    rw [all_isDigit_natural, List.isEmpty_eq_false_iff.2 (natural_ne_nil n)]
    rfl
  have hvalue : ∀ n : Nat, digitsValue (natural n).toList = n := by
    intro n
    rw [natural, String.toList_ofList, digitsValue_digits]
  cases i with
  | ofNat n => rw [integerTokens, integer?, if_pos (hdigits n), hvalue, Int.ofNat_eq_natCast]
  | negSucc n => rw [integerTokens, integer?, if_pos (hdigits (n + 1)), hvalue, Int.negSucc_eq,
      Int.natCast_succ]

/-! ## Bytes -/

/-- Bytes are written with hexadecimal digits after `0x`. -/
theorem forall_mem_hex {p : Char → Prop} (hdigit : ∀ n : Fin 16, p (hexDigit n)) (hx : p 'x')
    (bytes : List UInt8) : ∀ c ∈ (hex bytes).toList, p c := by
  have hbyte : ∀ b : UInt8, ∀ c ∈ hexByte b, p c := by
    intro b c hc
    have hhigh : b.toNat / 16 < 16 := by
      have := b.toNat_lt
      omega
    rcases List.mem_cons.1 hc with rfl | hc
    · exact hdigit ⟨b.toNat / 16, hhigh⟩
    · obtain rfl := List.mem_singleton.1 hc
      exact hdigit ⟨b.toNat % 16, Nat.mod_lt _ (by decide)⟩
  have htext : (hex bytes).toList = '0' :: 'x' :: bytes.flatMap hexByte := by simp [hex]
  rw [htext]
  intro c hc
  rcases List.mem_cons.1 hc with rfl | hc
  · exact hdigit 0
  · rcases List.mem_cons.1 hc with rfl | hc
    · exact hx
    · obtain ⟨b, -, hc⟩ := List.mem_flatMap.1 hc
      exact hbyte b c hc

theorem all_isWordChar_hex (bytes : List UInt8) : (hex bytes).toList.all isWordChar = true :=
  List.all_eq_true.2 (forall_mem_hex (by decide) (by decide) bytes)

/-! ## Joined and split texts -/

theorem split_ne_nil (sep : Char) (cs : List Char) : split sep cs ≠ [] := by
  cases cs with
  | nil => simp [split]
  | cons c cs =>
    rw [split]
    split
    · simp
    · split <;> simp

theorem split_of_notMem {sep : Char} : ∀ {cs : List Char}, sep ∉ cs → split sep cs = [cs]
  | [], _ => rfl
  | c :: cs, h => by
    have hc : c ≠ sep := fun he => h (by rw [he]; exact List.mem_cons_self)
    have hcs := split_of_notMem fun hmem => h (List.mem_cons_of_mem c hmem)
    rw [split, if_neg hc, hcs]

theorem join_append (sep : String) (y : String) (ys : List String) :
    ∀ {xs : List String}, xs ≠ [] →
      join sep (xs ++ y :: ys) = join sep xs ++ sep ++ join sep (y :: ys)
  | [_], _ => rfl
  | a :: b :: xs, _ => by
    have ih := join_append sep y ys (List.cons_ne_nil b xs)
    rw [List.cons_append] at ih
    rw [List.cons_append, List.cons_append, join, ih, join]
    simp only [String.append_assoc]

/-! ## Names with dots -/

/-- The tokens of names with dots between them. -/
def pathTokens : List String → List Token
  | [] => []
  | [s] => [.name s]
  | s :: t :: rest => .name s :: .dot :: pathTokens (t :: rest)

/-- The names that stand with dots between them. -/
def path? : List Token → Option (List String)
  | [.name s] => some [s]
  | .name s :: .dot :: ts => (path? ts).map (s :: ·)
  | _ => none

theorem path?_pathTokens : ∀ {ss : List String}, ss ≠ [] → path? (pathTokens ss) = some ss
  | [_], _ => rfl
  | s :: t :: rest, _ => by
    have ih := path?_pathTokens (List.cons_ne_nil t rest)
    rw [pathTokens, path?, ih]
    rfl

/-- Names with dots between them are read back, whatever they contain and whatever follows. -/
theorem lex_path {after : List Char} (hafter : after.head? ≠ some ']') :
    ∀ {ss : List String}, ss ≠ [] →
      lex .between ((join "." (ss.map Sql.name)).toList ++ after) =
        pathTokens ss ++ lex .between after
  | [s], _ => lex_name s hafter
  | s :: t :: rest, _ => by
    have ih := lex_path hafter (List.cons_ne_nil t rest)
    have htext : (join "." ((s :: t :: rest).map Sql.name)).toList ++ after =
        (Sql.name s).toList ++ '.' :: ((join "." ((t :: rest).map Sql.name)).toList ++ after) := by
      simp [join]
    rw [htext, lex_name s (by simp), lex_between_cons]
    show .name s :: .dot :: lex .between _ = _
    rw [ih]
    rfl

theorem Reads.path {ss : List String} (h : ss ≠ []) :
    Reads (join "." (ss.map Sql.name)) (pathTokens ss) := fun _ hrest =>
  lex_path (hrest.head?_ne (by decide)) h

end Transact.Sql
