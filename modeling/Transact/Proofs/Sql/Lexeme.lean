import Transact.Proofs.Sql.Token

/-!
# Lexemes

A reader that has to give back parts of a text needs to know how its tokens are spelled. A `Lexeme`
is a token with its spelling, or a blank.

* `filterMap_token_lexemes`: without their spellings, lexemes are the tokens.
* `flatMap_text_lexemes`: the spellings make up the text.
* `lexemes_append`: a text whose names and texts all end is followed by the lexemes of what stops
  it.
-/

set_option autoImplicit false

namespace Transact.Sql

open Text

/-- A token as it is spelled; without a token, it is a blank. -/
structure Lexeme where
  token : Option Token
  text : List Char
deriving DecidableEq

namespace Mode

/-- The token that has been read, with its spelling. -/
def lexemes (m : Mode) (read : List Char) : List Lexeme := m.flush.map fun t => ⟨some t, read⟩

/-- A character that is a token of its own, or a blank. -/
def startLexemes (c : Char) : List Lexeme :=
  if (start c).2 = .between then [⟨(start c).1.head?, [c]⟩] else []

/-- How far the token is spelled that a character begins. -/
def startText (c : Char) : List Char := if (start c).2 = .between then [] else [c]

end Mode

/-- The lexemes of a text, when `read` is the spelling of what is being read. -/
def spell : Mode → List Char → List Char → List Lexeme
  | m, read, [] => m.lexemes read
  | m, read, c :: cs =>
    match m.extend? c with
    | some m => spell m (read ++ [c]) cs
    | none =>
      m.lexemes read ++ Mode.startLexemes c ++ spell (Mode.start c).2 (Mode.startText c) cs

/-- The lexemes of a text. -/
def lexemes (text : String) : List Lexeme := spell .between [] text.toList

/-! ## Tokens and spellings -/

theorem Mode.filterMap_token_lexemes (m : Mode) (read : List Char) :
    (m.lexemes read).filterMap Lexeme.token = m.flush := by
  rw [lexemes, List.filterMap_map]
  exact List.filterMap_some

/-- A character begins something, or is a token, or is a blank. -/
theorem Mode.start_cases (c : Char) :
    ((start c).1 = [] ∧ (start c).2 ≠ .between) ∨
      (∃ t, (start c).1 = [t] ∧ (start c).2 = .between) ∨
      ((start c).1 = [] ∧ (start c).2 = .between) := by
  generalize hstart : start c = p
  unfold start at hstart
  split_ifs at hstart <;> subst hstart <;> first
    | exact .inr (.inl ⟨_, rfl, rfl⟩)
    | exact .inr (.inr ⟨rfl, rfl⟩)
    | exact .inl ⟨rfl, fun h => by cases h⟩

theorem Mode.filterMap_token_startLexemes (c : Char) :
    (startLexemes c).filterMap Lexeme.token = (start c).1 := by
  rw [startLexemes]
  obtain ⟨hnone, hmode⟩ | ⟨t, hone, hmode⟩ | ⟨hnone, hmode⟩ := start_cases c
  · rw [if_neg hmode, hnone]
    rfl
  · rw [if_pos hmode, hone]
    rfl
  · rw [if_pos hmode, hnone]
    rfl

theorem filterMap_token_spell : ∀ (m : Mode) (read cs : List Char),
    (spell m read cs).filterMap Lexeme.token = lex m cs
  | m, read, [] => m.filterMap_token_lexemes read
  | m, read, c :: cs => by
    rw [spell, lex]
    cases m.extend? c with
    | some m' => exact filterMap_token_spell m' _ cs
    | none =>
      simp only [List.filterMap_append, Mode.filterMap_token_lexemes,
        Mode.filterMap_token_startLexemes, filterMap_token_spell _ _ cs]

/-- Without their spellings, lexemes are the tokens. -/
theorem filterMap_token_lexemes (text : String) :
    (lexemes text).filterMap Lexeme.token = tokens text :=
  filterMap_token_spell .between [] _

/-- What has been read is spelled, unless nothing is being read. -/
def Mode.Spelled (m : Mode) (read : List Char) : Prop := m = .between → read = []

theorem Mode.flatMap_text_lexemes {m : Mode} {read : List Char} (h : m.Spelled read) :
    (m.lexemes read).flatMap Lexeme.text = read := by
  cases m with
  | between =>
    obtain rfl := h rfl
    rfl
  | inside _ _ | closed _ _ | word _ | sign _ => simp [lexemes, flush]

theorem Mode.spelled_startText (c : Char) : (start c).2.Spelled (startText c) := by
  intro h
  rw [startText, if_pos h]

theorem Mode.flatMap_text_startLexemes (c : Char) :
    (startLexemes c).flatMap Lexeme.text ++ startText c = [c] := by
  rw [startLexemes, startText]
  split <;> rfl

theorem Mode.extend?_ne_between {m m' : Mode} {c : Char} (h : m.extend? c = some m') :
    m' ≠ .between := by
  rintro rfl
  cases m with
  | between => cases h
  | inside close read =>
    rw [extend?] at h
    split at h <;> cases h
  | closed close read =>
    rw [extend?] at h
    split at h <;> cases h
  | word read =>
    rw [extend?] at h
    split at h
    · cases h
    · split at h <;> cases h
  | sign read =>
    rw [extend?] at h
    split at h <;> cases h

theorem flatMap_text_spell : ∀ {m : Mode} {read : List Char} (cs : List Char), m.Spelled read →
    (spell m read cs).flatMap Lexeme.text = read ++ cs
  | m, read, [], h => by rw [spell, Mode.flatMap_text_lexemes h, List.append_nil]
  | m, read, c :: cs, h => by
    rw [spell]
    cases hnext : m.extend? c with
    | some m' =>
      have hspelled : m'.Spelled (read ++ [c]) := fun hm =>
        absurd hm (Mode.extend?_ne_between hnext)
      simp only [flatMap_text_spell cs hspelled, List.append_assoc, List.singleton_append]
    | none =>
      simp only [List.flatMap_append, Mode.flatMap_text_lexemes h,
        flatMap_text_spell cs (Mode.spelled_startText c), List.append_assoc]
      rw [← List.append_assoc (Mode.startLexemes c |>.flatMap _), Mode.flatMap_text_startLexemes]
      rfl

/-- **The spellings** make up the text. -/
theorem flatMap_text_lexemes (text : String) :
    (lexemes text).flatMap Lexeme.text = text.toList :=
  flatMap_text_spell _ fun _ => rfl

/-! ## One text after another -/

theorem spell_stop {m : Mode} {read rest : List Char} (h : ∀ c ∈ rest.head?, m.extend? c = none) :
    spell m read rest = m.lexemes read ++ spell .between [] rest := by
  cases rest with
  | nil => simp [spell, Mode.lexemes, Mode.flush]
  | cons c cs =>
    rw [spell, h c rfl, List.append_assoc]
    rfl

/-- Where all names and texts have ended, what follows is spelled afresh. -/
theorem spell_append {rest : List Char} (hrest : Stops rest) :
    ∀ {m : Mode} (read cs : List Char), m.Delimits → .unclosed ∉ lex m cs →
      spell m read (cs ++ rest) = spell m read cs ++ spell .between [] rest
  | m, read, [], hm, hclosed => spell_stop fun _ hc => hm.extend?_stop hclosed (hrest _ hc)
  | m, read, c :: cs, hm, hclosed => by
    rw [lex] at hclosed
    rw [List.cons_append, spell, spell]
    cases hnext : m.extend? c with
    | some m' =>
      rw [hnext] at hclosed
      exact spell_append hrest _ cs (hm.extend? hnext) hclosed
    | none =>
      rw [hnext] at hclosed
      have ih := spell_append hrest (Mode.startText c) cs (Mode.delimits_start c) fun h =>
        hclosed (List.mem_append_right _ h)
      simp only [ih, List.append_assoc]

/-- **One text after another**: the lexemes of both, if the names and texts of the first end and the
second stops it. -/
theorem lexemes_append {a b : String} (ha : .unclosed ∉ tokens a) (hb : Stops b.toList) :
    lexemes (a ++ b) = lexemes a ++ lexemes b := by
  rw [lexemes, String.toList_append]
  exact spell_append hb [] _ trivial ha

/-- What follows the text is spelled afresh, whatever it is. -/
def Breaks (text : String) : Prop :=
  ∀ rest, spell .between [] (text.toList ++ rest) = lexemes text ++ spell .between [] rest

theorem Breaks.lexemes_append {a : String} (h : Breaks a) (b : String) :
    lexemes (a ++ b) = lexemes a ++ lexemes b := by
  rw [lexemes, String.toList_append]
  exact h _

theorem Starts.stops_append {a : String} (h : Starts a) (b : String) : Stops (a ++ b).toList := by
  rw [String.toList_append]
  exact h.stops _

/-- Two texts with a separator between them. -/
theorem lexemes_separated {a sep : String} (ha : .unclosed ∉ tokens a) (hstarts : Starts sep)
    (hbreaks : Breaks sep) (b : String) :
    lexemes (a ++ sep ++ b) = lexemes a ++ (lexemes sep ++ lexemes b) := by
  rw [String.append_assoc, Sql.lexemes_append ha (hstarts.stops_append b), hbreaks.lexemes_append]

/-! ## Names -/

theorem spell_inside_double {close : Char} {rest : List Char} (hrest : rest.head? ≠ some close) :
    ∀ read spelled cs : List Char,
      spell (.inside close read) spelled (double close cs ++ close :: rest) =
        (Mode.closed close (read ++ cs)).lexemes (spelled ++ (double close cs ++ [close])) ++
          spell .between [] rest
  | read, spelled, [] => by
    have hclosed : ∀ c ∈ rest.head?, (Mode.closed close read).extend? c = none := by
      intro c hc
      have : c ≠ close := fun h => hrest (by rw [← h]; exact hc)
      simp [Mode.extend?, this]
    simp [double, spell, Mode.extend?, spell_stop hclosed]
  | read, spelled, c :: cs => by
    by_cases hc : c = close
    · subst hc
      have ih := spell_inside_double hrest (read ++ [c]) (spelled ++ [c, c]) cs
      simpa [double, spell, Mode.extend?] using ih
    · have ih := spell_inside_double hrest (read ++ [c]) (spelled ++ [c]) cs
      simpa [double, spell, Mode.extend?, hc] using ih

/-- A name is one lexeme. -/
theorem lexemes_name (s : String) : lexemes (name s) = [⟨some (.name s), (name s).toList⟩] := by
  have hrest : ([] : List Char).head? ≠ some ']' := by simp
  have h := spell_inside_double hrest [] ['['] s.toList
  have htext : (name s).toList = '[' :: (double ']' s.toList ++ [']']) := by
    simp [name, bracketed]
  rw [lexemes, htext]
  show spell (.inside ']' []) ['['] _ = _
  rw [h]
  simp [Mode.lexemes, Mode.flush, spell, show ¬ ']' = apostrophe by decide]

end Transact.Sql
