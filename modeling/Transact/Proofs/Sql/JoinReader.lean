import Mathlib.Data.List.DropRight
import Transact.Proofs.Sql.Closed
import Transact.Proofs.Sql.Lexeme
import Transact.Query.Text

/-!
# Joins read back

The text after `FROM` is read as a tree of joins: joins are nested to the left, a join in
parentheses is one operand, and an `ON` belongs to the nearest join that is open. `JoinReader` takes
the lexemes of the text one by one and keeps the parentheses and joins that are open.

A condition goes on to a parenthesis that is not opened in it, to the keyword of another join, or to
an `ON` that an open join is waiting for. `completion` follows the words of a condition, to see that
none of them is taken for such a keyword.

* `JoinReader.run?_keyword`, `JoinReader.run?_on`, `JoinReader.run?_rparen`: what follows an
  operand.
* `JoinReader.run?_table`: a table is read back.
* `JoinReader.run?_condition`: a condition is read back.
-/

set_option autoImplicit false

namespace Transact.Sql

/-! ## Trees and keywords -/

/-- How a text joins tables. -/
inductive JoinTree where
  | table (schema : Option String) (name : String) (aliasName : Option String)
  | join (kind : JoinKind) (left right : JoinTree) (condition : Option String)
deriving DecidableEq

namespace Token

/-- A word in capitals. -/
def capitals : Token → String
  | .word w => String.ofList (w.toList.map Char.toUpper)
  | _ => ""

/-- The words that something has to follow. -/
def openWords : List String :=
  ["ON", "AND", "OR", "NOT", "LIKE", "IN", "IS", "AS", "DISTINCT", "COLLATE"]

/-- An expression may end with the token. -/
def completes : Token → Bool
  | .name _ => true
  | .text _ => true
  | .rparen => true
  | .word w => !openWords.contains (Token.word w).capitals
  | _ => false

/-- The token stands inside of the keyword of a join. -/
def joins (t : Token) : Bool := t.capitals == "JOIN" || t.capitals == "OUTER"

end Token

/-- The words that keywords of joins begin with. -/
def joinWords : List (String × JoinKind) :=
  [("INNER", .inner), ("LEFT", .leftOuter), ("RIGHT", .rightOuter), ("FULL", .fullOuter),
    ("CROSS", .cross)]

/-- The tokens go on with the keyword of a join after its first word; `OUTER` may be left out. -/
def endsKeyword (kind : JoinKind) : List Token → Bool
  | [] => false
  | t :: ts =>
    t.capitals == "JOIN" ||
      t.capitals == "OUTER" && kind != .inner && kind != .cross &&
        ts.head?.any fun u => u.capitals == "JOIN"

/-- The kind of the join whose keyword the tokens begin with. A `JOIN` of its own is a keyword where
an expression may have ended. -/
def joinKind? (complete : Bool) : List Token → Option JoinKind
  | [] => none
  | t :: ts =>
    if t.capitals = "JOIN" then if complete then some .inner else none
    else
      (joinWords.lookup t.capitals).bind fun kind =>
        if endsKeyword kind ts then some kind else none

/-! ## The reader -/

/-- What is open: a parenthesis, or a join that waits for its right side and condition. -/
inductive Opening where
  | paren
  | join (left : JoinTree) (kind : JoinKind)

/-- How far a tree of joins has been read. -/
inductive JoinPosition where
  /-- an operand comes next -/
  | operand
  | table (schema : Option String) (name : String)
  /-- a dot has been read after the name -/
  | qualified (schema : String)
  /-- an `AS` has been read -/
  | aliased (schema : Option String) (name : String)
  /-- an operand, or a join with its condition -/
  | whole (t : JoinTree)
  /-- the keyword of a join -/
  | keyword
  /-- the condition of a join, with the parentheses that are open in it -/
  | condition (left : JoinTree) (kind : JoinKind) (right : JoinTree) (text : List Char)
      (depth : Nat) (complete : Bool)

/-- A reader of joins. -/
structure JoinReader where
  opened : List Opening
  position : JoinPosition

/-- The text without the blanks around it. -/
def strip (cs : List Char) : List Char := (cs.rdropWhile (· == ' ')).dropWhile (· == ' ')

/-- A tree that has been read, after what is open. It completes the cross joins that wait for it. -/
def close : List Opening → JoinTree → List Opening × JoinTree
  | .join left .cross :: opened, t => close opened (.join .cross left t none)
  | opened, t => (opened, t)

namespace JoinReader

/-- What has been read, if it ends here. -/
def settle? (rd : JoinReader) : Option (List Opening × JoinTree) :=
  match rd.position with
  | .table schema name => some (close rd.opened (.table schema name none))
  | .whole t => some (rd.opened, t)
  | .condition left kind right text 0 _ =>
    some (close rd.opened (.join kind left right (some (String.ofList (strip text)))))
  | _ => none

/-- A join waits for its condition. -/
def waits (rd : JoinReader) : Bool :=
  match rd.opened with
  | .join _ _ :: _ => true
  | _ => false

/-- What is being read ends before the token, with `ahead` after it. -/
def ends (rd : JoinReader) (t : Token) (ahead : List Token) : Bool :=
  match rd.position with
  | .table _ _ => t != .dot && t.capitals != "AS"
  | .whole _ => true
  | .condition _ _ _ _ depth complete =>
    depth == 0 &&
      (t == .rparen || t.capitals == "ON" && rd.waits || (joinKind? complete (t :: ahead)).isSome)
  | _ => false

/-- Reads a token after an operand. -/
def after? (opened : List Opening) (tree : JoinTree) (t : Token) (ahead : List Token) :
    Option JoinReader :=
  if t = .rparen then
    match opened with
    | .paren :: outer => some ⟨(close outer tree).1, .whole (close outer tree).2⟩
    | _ => none
  else if t.capitals = "ON" then
    match opened with
    | .join left kind :: outer => some ⟨outer, .condition left kind tree [] 0 false⟩
    | _ => none
  else
    (joinKind? true (t :: ahead)).map fun kind =>
      ⟨.join tree kind :: opened, if t.capitals = "JOIN" then .operand else .keyword⟩

/-- Reads a token that goes on with what is being read. -/
def goOn? (rd : JoinReader) (t : Token) (spelling : List Char) : Option JoinReader :=
  match rd.position, t with
  | .operand, .lparen => some ⟨.paren :: rd.opened, .operand⟩
  | .operand, .name s => some ⟨rd.opened, .table none s⟩
  | .table none name, .dot => some ⟨rd.opened, .qualified name⟩
  | .table schema name, .word _ => some ⟨rd.opened, .aliased schema name⟩
  | .qualified schema, .name s => some ⟨rd.opened, .table (some schema) s⟩
  | .aliased schema name, .name s =>
    let (opened, tree) := close rd.opened (.table schema name (some s))
    some ⟨opened, .whole tree⟩
  | .keyword, t =>
    if t.capitals = "JOIN" then some ⟨rd.opened, .operand⟩
    else if t.capitals = "OUTER" then some rd
    else none
  | .condition left kind right text depth _, t =>
    let depth := if t = .lparen then depth + 1 else if t = .rparen then depth - 1 else depth
    some ⟨rd.opened, .condition left kind right (text ++ spelling) depth t.completes⟩
  | _, _ => none

/-- Passes over a blank, which belongs to a condition. -/
def skip (rd : JoinReader) (spelling : List Char) : JoinReader :=
  match rd.position with
  | .condition left kind right text depth complete =>
    ⟨rd.opened, .condition left kind right (text ++ spelling) depth complete⟩
  | _ => rd

/-- Reads a lexeme, with the tokens `ahead` after it. -/
def step? (rd : JoinReader) (l : Lexeme) (ahead : List Token) : Option JoinReader :=
  match l.token with
  | none => some (rd.skip l.text)
  | some t =>
    if rd.ends t ahead then rd.settle?.bind fun (opened, tree) => after? opened tree t ahead
    else rd.goOn? t l.text

/-- Reads lexemes to the end. -/
def run? : JoinReader → List Lexeme → Option JoinTree
  | rd, [] => rd.settle?.bind fun (opened, tree) => if opened.isEmpty then some tree else none
  | rd, l :: ls => (rd.step? l (ls.filterMap Lexeme.token)).bind (run? · ls)

end JoinReader

/-- The joins that a text is read as. -/
def joinTree? (text : String) : Option JoinTree := JoinReader.run? ⟨[], .operand⟩ (lexemes text)

-- A join that waits for its `ON` takes in the joins after it.
example : joinTree? "[a] left join [b] AS [x] JOIN [c] ON [c].[i] = 1 ON JOIN([a].[i]) = (2)" =
    some (.join .leftOuter (.table none "a" none)
      (.join .inner (.table none "b" (some "x")) (.table none "c" none) (some "[c].[i] = 1"))
      (some "JOIN([a].[i]) = (2)")) := by decide +kernel

/-! ## Words of conditions -/

/-- Whether an expression may have ended after the tokens, given whether one may have ended before
them; `none` when a token is read that goes on with the keyword of a join. -/
def completion : Bool → List Token → Option Bool
  | complete, [] => some complete
  | complete, t :: ts => if complete && t.joins then none else completion t.completes ts

theorem completion_append (us : List Token) : ∀ {ts : List Token} {b b' : Bool},
    completion b ts = some b' → completion b (ts ++ us) = completion b' us
  | [], b, b', h => by rw [← Option.some.inj h]; rfl
  | t :: ts, b, b', h => by
    rw [completion] at h
    rw [List.cons_append, completion]
    split
    case isTrue hjoins =>
      rw [if_pos hjoins] at h
      cases h
    case isFalse hjoins =>
      rw [if_neg hjoins] at h
      exact completion_append us h

/-- The first word of a keyword could also end an expression. -/
theorem completes_of_lookup {t : Token} {kind : JoinKind}
    (h : joinWords.lookup t.capitals = some kind) : t.completes = true := by
  have hopen : ∀ p ∈ joinWords, Token.openWords.contains p.1 = false ∧ p.1 ≠ "" := by decide
  obtain ⟨before, after, hwords, -⟩ := List.lookup_eq_some_iff.1 h
  have hmem : (t.capitals, kind) ∈ joinWords := by simp [hwords]
  cases t with
  | word w =>
    rw [Token.completes, (hopen _ hmem).1]
    rfl
  | name s | text s | rparen => rfl
  | sign s | dot | lparen | other c | unclosed => exact absurd rfl (hopen _ hmem).2

/-- After the first word, a keyword goes on with a token that no condition has there. -/
theorem endsKeyword_eq_false {kind : JoinKind} {ts : List Token}
    (h : ∀ t ∈ ts.head?, t.joins = false) : endsKeyword kind ts = false := by
  cases ts with
  | nil => rfl
  | cons t ts =>
    have ht := h t rfl
    rw [Token.joins, Bool.or_eq_false_iff] at ht
    rw [endsKeyword, ht.1, ht.2]
    rfl

/-- **No keyword of a join** begins in tokens that `completion` passes. -/
theorem joinKind?_eq_none {complete b : Bool} {t : Token} {ts us : List Token}
    (h : completion complete (t :: ts) = some b) (hus : ∀ u ∈ us.head?, u.joins = false) :
    joinKind? complete (t :: (ts ++ us)) = none := by
  rw [completion] at h
  split at h
  case isTrue => cases h
  case isFalse hjoins =>
    rw [joinKind?]
    split
    case isTrue hjoin =>
      have : t.joins = true := by rw [Token.joins, hjoin]; rfl
      rw [if_neg fun hc => hjoins (by rw [hc, this]; rfl)]
    case isFalse =>
      cases hword : joinWords.lookup t.capitals with
      | none => rfl
      | some kind =>
        rw [completes_of_lookup hword] at h
        have hnext : ∀ u ∈ (ts ++ us).head?, u.joins = false := by
          cases ts with
          | nil => exact hus
          | cons v ts =>
            intro u hu
            obtain rfl := Option.some.inj hu
            rw [completion] at h
            split at h
            · cases h
            · rename_i hv
              simpa using hv
        rw [Option.bind_some, endsKeyword_eq_false hnext]
        rfl

/-! ## Blanks -/

theorem strip_concat_blank (cs : List Char) : strip (cs ++ [' ']) = strip cs := by
  rw [strip, List.rdropWhile_concat_pos _ _ _ (by decide), strip]

/-- The text begins and ends with a character that is no blank. -/
structure IsSnug (cs : List Char) : Prop where
  head : ∃ c ds, cs = c :: ds ∧ c ≠ ' '
  last : ∃ ds c, cs = ds ++ [c] ∧ c ≠ ' '

theorem IsSnug.strip_blank {cs : List Char} (h : IsSnug cs) : strip (' ' :: cs) = cs := by
  obtain ⟨c, ds, hhead, hc⟩ := h.head
  obtain ⟨es, d, hlast, hd⟩ := h.last
  have hright : (' ' :: cs).rdropWhile (· == ' ') = ' ' :: cs := by
    rw [hlast, ← List.cons_append, List.rdropWhile_concat_neg _ _ _ (by simpa using hd)]
  rw [strip, hright, List.dropWhile_cons_of_pos (by decide), hhead,
    List.dropWhile_cons_of_neg (by simpa using hc)]

/-! ## Runs -/

/-- A cross join is the last thing to be closed before a join that waits, or the join waits
itself. -/
theorem waits_of_close {opened outer : List Opening} {left t t' : JoinTree} {kind : JoinKind}
    (h : close opened t = (.join left kind :: outer, t')) :
    ∃ left' kind' outer', opened = .join left' kind' :: outer' := by
  cases opened with
  | nil => cases h
  | cons o opened =>
    cases o with
    | paren => cases h
    | join left' kind' => exact ⟨left', kind', opened, rfl⟩

theorem close_of_fresh {opened : List Opening} (h : ∀ o ∈ opened.head?, o = .paren) (t : JoinTree) :
    close opened t = (opened, t) := by
  cases opened with
  | nil => rfl
  | cons o opened =>
    obtain rfl := h o rfl
    rfl

namespace JoinReader

variable {rd : JoinReader} {opened : List Opening} {tree : JoinTree} {rest : List Lexeme}

theorem run?_blank (spelling : List Char) :
    run? rd (⟨none, spelling⟩ :: rest) = run? (rd.skip spelling) rest := rfl

/-- A blank at the end does not count. -/
theorem settle?_skip (h : rd.settle? = some (opened, tree)) :
    (rd.skip [' ']).settle? = some (opened, tree) := by
  obtain ⟨opened', position⟩ := rd
  cases position with
  | condition left kind right text depth complete =>
    cases depth with
    | zero =>
      rw [← h]
      simp only [skip, settle?, strip_concat_blank]
    | succ depth => cases h
  | operand | table _ _ | qualified _ | aliased _ _ | whole _ | keyword => exact h

theorem waits_of_settle {left : JoinTree} {kind : JoinKind}
    (h : rd.settle? = some (.join left kind :: opened, tree)) : rd.waits = true := by
  obtain ⟨opened', position⟩ := rd
  have hwaits : ∀ {t : JoinTree}, close opened' t = (.join left kind :: opened, tree) →
      waits ⟨opened', position⟩ = true := by
    intro t hclose
    obtain ⟨left', kind', outer', rfl⟩ := waits_of_close hclose
    rfl
  cases position with
  | table schema name => exact hwaits (Option.some.inj h)
  | whole t =>
    obtain ⟨rfl, -⟩ := Prod.mk.inj (Option.some.inj h)
    rfl
  | condition left kind right text depth complete =>
    cases depth with
    | zero => exact hwaits (Option.some.inj h)
    | succ depth => cases h
  | operand | qualified _ | aliased _ _ | keyword => cases h

/-- What is being read ends before a closing parenthesis, an `ON` that is waited for, and the
keyword of a join. -/
theorem ends_of_settle (h : rd.settle? = some (opened, tree)) {t : Token} {ahead : List Token}
    (hdot : t ≠ .dot) (has : t.capitals ≠ "AS")
    (hcloses : t = .rparen ∨ (t.capitals = "ON" ∧ rd.waits = true) ∨
      ∀ b, (joinKind? b (t :: ahead)).isSome = true) : rd.ends t ahead = true := by
  obtain ⟨opened', position⟩ := rd
  cases position with
  | table schema name =>
    rw [ends, Bool.and_eq_true, bne_iff_ne, bne_iff_ne]
    exact ⟨hdot, has⟩
  | whole t => rfl
  | condition left kind right text depth complete =>
    cases depth with
    | zero =>
      rcases hcloses with rfl | ⟨hon, hwaits⟩ | hkind
      · rfl
      · simp only [ends, hon, hwaits]
        simp
      · simp only [ends, hkind complete]
        simp
    | succ depth => cases h
  | operand | qualified _ | aliased _ _ | keyword => cases h

/-- Reads a token that ends what is being read. -/
theorem run?_after (h : rd.settle? = some (opened, tree)) {t : Token} {spelling : List Char}
    (hends : rd.ends t (rest.filterMap Lexeme.token) = true) :
    run? rd (⟨some t, spelling⟩ :: rest) =
      (after? opened tree t (rest.filterMap Lexeme.token)).bind (run? · rest) := by
  rw [run?, step?]
  simp only [hends, if_true, h, Option.bind_some]

theorem run?_rparen (h : rd.settle? = some (.paren :: opened, tree)) :
    run? rd (⟨some .rparen, [')']⟩ :: rest) =
      run? ⟨(close opened tree).1, .whole (close opened tree).2⟩ rest := by
  rw [run?_after h (ends_of_settle h (by decide) (by decide) (.inl rfl))]
  rfl

/-- The keyword of a join is the word `w` and what `tail` adds to it. -/
structure SpellsKeyword (kind : JoinKind) (w : String) (tail : List Lexeme) : Prop where
  other : (Token.word w).capitals ∉ ["AS", "ON", "JOIN", "OUTER"]
  kind? : ∀ b us, joinKind? b (.word w :: (tail.filterMap Lexeme.token ++ us)) = some kind
  reads : ∀ opened rest, run? ⟨opened, .keyword⟩ (tail ++ rest) = run? ⟨opened, .operand⟩ rest

theorem exists_spellsKeyword {kind : JoinKind} (hkind : kind ≠ .fragment) : ∃ w tail,
    lexemes (" " ++ kind.keyword ++ " ") =
      ⟨none, [' ']⟩ :: ⟨some (.word w), w.toList⟩ :: tail ∧ SpellsKeyword kind w tail := by
  cases kind with
  | inner =>
    exact ⟨"INNER", _, rfl, by decide, fun b us => rfl, fun opened rest => rfl⟩
  | leftOuter =>
    exact ⟨"LEFT", _, rfl, by decide, fun b us => rfl, fun opened rest => rfl⟩
  | rightOuter =>
    exact ⟨"RIGHT", _, rfl, by decide, fun b us => rfl, fun opened rest => rfl⟩
  | fullOuter =>
    exact ⟨"FULL", _, rfl, by decide, fun b us => rfl, fun opened rest => rfl⟩
  | cross =>
    exact ⟨"CROSS", _, rfl, by decide, fun b us => rfl, fun opened rest => rfl⟩
  | fragment => exact absurd rfl hkind

/-- **The keyword of a join** after an operand. -/
theorem run?_keyword (h : rd.settle? = some (opened, tree)) {kind : JoinKind}
    (hkind : kind ≠ .fragment) :
    run? rd (lexemes (" " ++ kind.keyword ++ " ") ++ rest) =
      run? ⟨.join tree kind :: opened, .operand⟩ rest := by
  obtain ⟨w, tail, hlexemes, hspells⟩ := exists_spellsKeyword hkind
  have hother := hspells.other
  simp only [List.mem_cons, List.not_mem_nil, or_false, not_or] at hother
  obtain ⟨has, hon, hjoin, -⟩ := hother
  have hblank := settle?_skip h
  have hends : (rd.skip [' ']).ends (.word w) ((tail ++ rest).filterMap Lexeme.token) = true := by
    refine ends_of_settle hblank (fun h => by cases h) has (.inr (.inr fun b => ?_))
    rw [List.filterMap_append, hspells.kind?]
    rfl
  have hafter : after? opened tree (.word w) ((tail ++ rest).filterMap Lexeme.token) =
      some ⟨.join tree kind :: opened, .keyword⟩ := by
    unfold after?
    rw [if_neg (fun h => by cases h), if_neg hon, List.filterMap_append, hspells.kind?,
      Option.map_some, if_neg hjoin]
  rw [hlexemes, List.cons_append, List.cons_append, run?_blank, run?_after hblank hends, hafter]
  exact hspells.reads _ rest

/-- **The `ON`** after the right side of a join that waits for it. -/
theorem run?_on {left : JoinTree} {kind : JoinKind}
    (h : rd.settle? = some (.join left kind :: opened, tree)) :
    run? rd (lexemes " ON " ++ rest) =
      run? ⟨opened, .condition left kind tree [' '] 0 false⟩ rest := by
  have hblank := settle?_skip h
  have hends : (rd.skip [' ']).ends (.word "ON") (rest.filterMap Lexeme.token) = true := by
    exact ends_of_settle hblank (by decide) (by decide)
      (.inr (.inl ⟨by decide, waits_of_settle hblank⟩))
  exact run?_after hblank hends

/-! ## Tables -/

theorem breaks_dot : Breaks "." := fun _ => rfl

theorem breaks_as : Breaks " AS " := fun _ => rfl

theorem unclosed_notMem_pathTokens : ∀ names : List String, .unclosed ∉ pathTokens names
  | [] => List.not_mem_nil
  | [_] => by simp [pathTokens]
  | _ :: next :: names => by
    have ih := unclosed_notMem_pathTokens (next :: names)
    simpa [pathTokens] using ih

theorem unclosed_notMem_path (names : List String) :
    .unclosed ∉ tokens (Text.join "." (names.map Sql.name)) := by
  cases names with
  | nil => decide
  | cons name names =>
    rw [(Reads.path (List.cons_ne_nil name names)).tokens_eq]
    exact unclosed_notMem_pathTokens _

/-- The names of a table. -/
theorem run?_path (schema : Option String) (name : String) :
    run? ⟨opened, .operand⟩
        (lexemes (Text.join "." ((schema.toList ++ [name]).map Sql.name)) ++ rest) =
      run? ⟨opened, .table schema name⟩ rest := by
  cases schema with
  | none =>
    change run? _ (lexemes (Sql.name name) ++ rest) = _
    rw [lexemes_name]
    rfl
  | some schema =>
    have hclosed : .unclosed ∉ tokens (Sql.name schema) := unclosed_notMem_path [schema]
    change run? _ (lexemes (Sql.name schema ++ "." ++ Sql.name name) ++ rest) = _
    rw [lexemes_separated hclosed separator_dot.starts breaks_dot, lexemes_name, lexemes_name]
    rfl

/-- The alias of a table. -/
theorem run?_alias (schema : Option String) (name other : String) :
    run? ⟨opened, .table schema name⟩ (lexemes (" AS " ++ Sql.name other) ++ rest) =
      run? ⟨(close opened (.table schema name (some other))).1,
        .whole (close opened (.table schema name (some other))).2⟩ rest := by
  rw [breaks_as.lexemes_append, lexemes_name]
  cases schema <;> rfl

/-- **A table** is read back, with its schema and alias. -/
theorem run?_table (t : TableRef) (opened : List Opening) (rest : List Lexeme) :
    ∃ rd : JoinReader, run? ⟨opened, .operand⟩ (lexemes t.sql ++ rest) = run? rd rest ∧
      rd.settle? = some (close opened (.table t.schema t.name t.aliasName)) := by
  have hclosed := unclosed_notMem_path (t.schema.toList ++ [t.name])
  rw [TableRef.sql]
  cases t.aliasName with
  | none => exact ⟨_, run?_path t.schema t.name, rfl⟩
  | some other =>
    have hstops := separator_as.starts.stops_append (Sql.name other)
    refine ⟨⟨_, .whole (close opened (.table t.schema t.name (some other))).2⟩, ?_, rfl⟩
    dsimp only
    rw [String.append_assoc, lexemes_append hclosed hstops, List.append_assoc, run?_path,
      run?_alias]

/-! ## Conditions -/

variable {left right : JoinTree} {kind : JoinKind}

theorem waits_of_fresh (hopened : ∀ o ∈ opened.head?, o = .paren) (position : JoinPosition) :
    waits ⟨opened, position⟩ = false := by
  cases opened with
  | nil => rfl
  | cons o opened =>
    obtain rfl := hopened o rfl
    rfl

/-- A token of a condition does not end it. -/
theorem ends_condition (hopened : ∀ o ∈ opened.head?, o = .paren) {text : List Char}
    {depth m : Nat} {complete b : Bool} {t : Token} {ts us : List Token}
    (hparens : openParens depth (t :: ts) = some m)
    (hcompletion : completion complete (t :: ts) = some b)
    (hus : ∀ u ∈ us.head?, u.joins = false) :
    ends ⟨opened, .condition left kind right text depth complete⟩ t (ts ++ us) = false := by
  have hrparen : (depth == 0 && t == .rparen) = false := by
    rw [Bool.and_eq_false_iff, beq_eq_false_iff_ne, beq_eq_false_iff_ne]
    by_contra hboth
    obtain ⟨rfl, rfl⟩ : depth = 0 ∧ t = .rparen := by simpa using hboth
    cases hparens
  rw [ends]
  simp only [waits_of_fresh hopened, joinKind?_eq_none hcompletion hus, Bool.and_false,
    Bool.or_false, Option.isSome_none]
  exact hrparen

theorem openParens_tail {depth m : Nat} {t : Token} {ts : List Token}
    (h : openParens depth (t :: ts) = some m) :
    openParens (if t = .lparen then depth + 1 else if t = .rparen then depth - 1 else depth) ts =
      some m := by
  rw [openParens] at h
  by_cases hl : t = .lparen
  · rwa [if_pos hl] at h ⊢
  · rw [if_neg hl] at h ⊢
    by_cases hr : t = .rparen
    · rw [if_pos hr] at h ⊢
      split at h
      · cases h
      · exact h
    · rwa [if_neg hr] at h ⊢

theorem completion_tail {complete b : Bool} {t : Token} {ts : List Token}
    (h : completion complete (t :: ts) = some b) : completion t.completes ts = some b := by
  rw [completion] at h
  split at h
  · cases h
  · exact h

/-- **A condition** is read to its end: lexemes with matched parentheses, none of which is taken for
the keyword of a join. -/
theorem run?_condition (hopened : ∀ o ∈ opened.head?, o = .paren)
    (hrest : ∀ t ∈ (rest.filterMap Lexeme.token).head?, t.joins = false) :
    ∀ (ls : List Lexeme) (text : List Char) {depth : Nat} {complete b : Bool},
      openParens depth (ls.filterMap Lexeme.token) = some 0 →
      completion complete (ls.filterMap Lexeme.token) = some b →
      run? ⟨opened, .condition left kind right text depth complete⟩ (ls ++ rest) =
        run? ⟨opened, .condition left kind right (text ++ ls.flatMap Lexeme.text) 0 b⟩ rest
  | [], text, depth, complete, b, hparens, hcompletion => by
    obtain rfl := Option.some.inj hparens
    obtain rfl := Option.some.inj hcompletion
    rw [List.flatMap_nil, List.append_nil]
    rfl
  | ⟨none, spelling⟩ :: ls, text, depth, complete, b, hparens, hcompletion => by
    have ih := run?_condition hopened hrest ls (text ++ spelling) hparens hcompletion
    rw [List.append_assoc] at ih
    exact ih
  | ⟨some t, spelling⟩ :: ls, text, depth, complete, b, hparens, hcompletion => by
    have ih := run?_condition hopened hrest ls (text ++ spelling) (openParens_tail hparens)
      (completion_tail hcompletion)
    have hends : ends ⟨opened, .condition left kind right text depth complete⟩ t
        (ls.filterMap Lexeme.token ++ rest.filterMap Lexeme.token) = false :=
      ends_condition hopened hparens hcompletion hrest
    rw [List.append_assoc] at ih
    rw [List.cons_append, run?, step?]
    simp only [List.filterMap_append, hends, Bool.false_eq_true, if_false]
    exact ih

/-- **The text of a condition** is read back. -/
theorem run?_conditionText {text : String} (hopened : ∀ o ∈ opened.head?, o = .paren)
    (hrest : ∀ t ∈ (rest.filterMap Lexeme.token).head?, t.joins = false)
    (hparens : openParens 0 (tokens text) = some 0) {b : Bool}
    (hcompletion : completion false (tokens text) = some b) (hsnug : IsSnug text.toList) :
    ∃ rd : JoinReader,
      run? ⟨opened, .condition left kind right [' '] 0 false⟩ (lexemes text ++ rest) =
        run? rd rest ∧
      rd.settle? = some (opened, .join kind left right (some text)) := by
  rw [← filterMap_token_lexemes] at hparens hcompletion
  refine ⟨_, run?_condition hopened hrest (lexemes text) [' '] hparens hcompletion, ?_⟩
  simp only [settle?, flatMap_text_lexemes, List.singleton_append, hsnug.strip_blank,
    String.ofList_toList, close_of_fresh hopened]

end JoinReader

end Transact.Sql
