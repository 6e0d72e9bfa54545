import Mathlib.Data.List.Basic
import Stel.Data.Text

/-!
# The tokens of a SQL text

A SQL text is split into words, literals in single quotes, identifiers in double quotes, semicolons
and other characters. Comments run from `--` to the end of the line, or from `/*` to `*/`. What ends
a line, what is blank, and whether block comments nest differs between dialects.

The characters of the text may carry a location, which a token keeps.

## Main definitions

* `Dialect`: the choices of a dialect.
* `lex`: the tokens of a text.
* `SingleQuery`: the tokens are those of one statement, a query.

## Main results

* `exists_of_mem_lex`, `kind_of_isAlphanum`: where tokens start, and when they are words.
-/

namespace Stel.SqlTokens

/-- The lexical choices of a SQL dialect. -/
structure Dialect where
  nestedComments : Bool
  endsLine : Char → Bool
  isBlank : Char → Bool

/-- The characters of words. White space is in no word. -/
def isWordChar (c : Char) : Bool := c.isAlphanum || c = '_' || (127 < c.toNat && !isSpace c)

inductive Kind
  | word (text : List Char)
  | literal
  | identifier
  | semicolon
  | symbol
  deriving DecidableEq, Repr

/-- A token with the character at which it starts. -/
structure Token (α : Type) where
  start : α
  kind : Kind
  deriving DecidableEq, Repr

/-- Where in a token or a comment the next character is. -/
inductive Mode
  | code
  | word
  | line
  | opening (depth : ℕ)
  | block (depth : ℕ)
  | closing (depth : ℕ)
  | quoted (quote : Char)
  | doubled (quote : Char)
  deriving DecidableEq, Repr

section Lex

variable {α : Type} (d : Dialect) (char : α → Char)

/-- The next character. -/
def next (rest : List α) : Option Char := rest.head?.map char

/-- The token that starts at a character outside tokens and comments, if one does, and the mode after
the character. -/
def atCode (a : α) (rest : List α) : Option Kind × Mode :=
  if char a = '-' ∧ next char rest = some '-' then (none, .line)
  else if char a = '/' ∧ next char rest = some '*' then (none, .opening 0)
  else if char a = '\'' then (some .literal, .quoted '\'')
  else if char a = '"' then (some .identifier, .quoted '"')
  else if char a = ';' then (some .semicolon, .code)
  else if d.isBlank (char a) then (none, .code)
  else if isWordChar (char a) then
    (some (.word (((a :: rest).map char).takeWhile isWordChar)), .word)
  else (some .symbol, .code)

/-- The mode after a character of a token or a comment. -/
def afterChar (mode : Mode) (a : α) (rest : List α) : Mode :=
  match mode with
  | .code | .word => .code
  | .line => if d.endsLine (char a) then .code else .line
  | .opening depth => .block depth
  | .block depth =>
    if char a = '*' ∧ next char rest = some '/' then .closing depth
    else if d.nestedComments ∧ char a = '/' ∧ next char rest = some '*' then .opening (depth + 1)
    else .block depth
  | .closing 0 => .code
  | .closing (depth + 1) => .block depth
  | .quoted quote =>
    if char a = quote then
      if next char rest = some quote then .doubled quote else .code
    else .quoted quote
  | .doubled quote => .quoted quote

/-- Whether a character starts outside tokens and comments. -/
def startsCode (mode : Mode) (a : α) : Bool :=
  match mode with
  | .code => true
  | .word => !isWordChar (char a)
  | _ => false

/-- The tokens of a text. A literal or a comment that is not closed runs to the end of the text. -/
def lex : Mode → List α → List (Token α)
  | _, [] => []
  | mode, a :: rest =>
    if startsCode char mode a then
      match atCode d char a rest with
      | (some kind, mode') => ⟨a, kind⟩ :: lex mode' rest
      | (none, mode') => lex mode' rest
    else if mode = .word then lex .word rest
    else lex (afterChar d char mode a rest) rest

/-! ### Where tokens start -/

variable {d char}

/-- A token starts outside tokens and comments. -/
theorem exists_of_mem_lex {mode : Mode} {text : List α} {t : Token α} (h : t ∈ lex d char mode text) :
    ∃ pre rest, text = pre ++ t.start :: rest ∧ (atCode d char t.start rest).1 = some t.kind := by
  induction text generalizing mode with
  | nil => cases h
  | cons a rest ih =>
    have hlater : ∀ {mode'}, t ∈ lex d char mode' rest → ∃ pre rest', a :: rest = pre ++ t.start :: rest' ∧
        (atCode d char t.start rest').1 = some t.kind := by
      intro mode' hmem
      obtain ⟨pre, rest', hrest, hkind⟩ := ih hmem
      exact ⟨a :: pre, rest', congrArg (a :: ·) hrest, hkind⟩
    unfold lex at h
    split at h
    · cases hcode : atCode d char a rest with
      | mk kind? mode' =>
        rw [hcode] at h
        cases kind? with
        | none => exact hlater h
        | some kind =>
          obtain rfl | hmem := List.mem_cons.mp h
          · exact ⟨[], rest, rfl, by rw [hcode]⟩
          · exact hlater hmem
    · split at h
      · exact hlater h
      · exact hlater h

/-- A token that starts with a letter or a digit is a word. -/
theorem kind_of_isAlphanum {a : α} {rest : List α} {kind : Kind}
    (h : (atCode d char a rest).1 = some kind) (ha : (char a).isAlphanum = true) :
    kind = .word (((a :: rest).map char).takeWhile isWordChar) := by
  have hne : ∀ c : Char, c.isAlphanum = false → char a ≠ c := by
    rintro c hc rfl
    rw [hc] at ha
    cases ha
  have hword : isWordChar (char a) = true := by simp [isWordChar, ha]
  unfold atCode at h
  rw [if_pos hword, if_neg fun h => hne '-' (by decide) h.1, if_neg fun h => hne '/' (by decide) h.1,
    if_neg (hne '\'' (by decide)), if_neg (hne '"' (by decide)), if_neg (hne ';' (by decide))] at h
  split at h
  · cases h
  · exact (Option.some_inj.mp h).symm

end Lex

/-! ### Single queries -/

/-- A word in lower case. Only its ASCII letters matter for the comparison with a keyword. -/
def lower (word : List Char) : List Char := word.map Char.toLower

/-- The keywords with which a query starts. -/
def queryKeywords : List (List Char) := ["select".toList, "with".toList]

/-- The token is `SELECT` or `WITH`. -/
def Kind.StartsQuery (kind : Kind) : Prop := ∃ text, kind = .word text ∧ lower text ∈ queryKeywords

/-- The tokens are those of one statement, a query: no semicolon is followed by a token, and the
first token is `SELECT` or `WITH`. -/
structure SingleQuery {α : Type} (tokens : List (Token α)) : Prop where
  single : ∀ pre s post, tokens = pre ++ s :: post → s.kind = .semicolon → post = []
  query : ∃ first rest, tokens = first :: rest ∧ first.kind.StartsQuery

end Stel.SqlTokens
