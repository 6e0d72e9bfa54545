import Mathlib.Data.List.TakeWhile
import Mathlib.Data.List.Basic

/-!
# The lexical rules of SQL

The tokens of a text, as far as conditions need them: words, quoted identifiers, numbers, string
literals in which a doubled quote stands for a quote, operators, and the two kinds of comments.

## Main definitions

* `Token`, `Numeral`.
* `lexWith`, `lex`: the tokens of a text.
* `Lexes`: the tokens of a text, with any fuel that is enough.

## Main results

* `Lexes.word`, `Lexes.text`, `Lexes.number`, `Lexes.symbol`: what one token of a text is.
* `lexQuoted_doubled`: a string literal is read back as it was.
-/

namespace Stel.Sql

/-! ### Tokens -/

/-- The digits of an unsigned number: before the point, behind it, and in the exponent, which may have
a sign. -/
structure Numeral where
  whole : List Char
  fraction : Option (List Char) := none
  exponent : Option (Option Char × List Char) := none
  deriving DecidableEq, Repr

/-- A token. -/
inductive Token
  | word (name : String)
  | quoted (name : String)
  | text (value : String)
  | number (n : Numeral)
  | symbol (s : String)
  deriving DecidableEq, Repr

/-- The quote of a string literal. -/
def quote : Char := Char.ofNat 39

/-- A character that may start a word. -/
def isWordStart (c : Char) : Bool := c.isAlpha || c = '_'

/-- A character of a word. -/
def isWordChar (c : Char) : Bool := c.isAlphanum || c = '_'

/-- A character between tokens. -/
def isBlankChar (c : Char) : Bool := c = ' ' || c = '\t' || c = '\n' || c = '\r'

/-- The rest of a literal behind its opening quote: its value, and the text behind the closing one. -/
def lexQuoted (q : Char) : List Char → Option (List Char × List Char)
  | [] => none
  | [c] => if c = q then some ([], []) else none
  | c :: d :: cs =>
    if c = q then
      if d = q then (lexQuoted q cs).map fun r => (q :: r.1, r.2) else some ([], d :: cs)
    else (lexQuoted q (d :: cs)).map fun r => (c :: r.1, r.2)

/-- The text behind the end of a block comment. -/
def skipBlock : List Char → Option (List Char)
  | '*' :: '/' :: cs => some cs
  | _ :: cs => skipBlock cs
  | [] => none

/-- The part of a number behind its point. -/
def lexFraction : List Char → Option (List Char) × List Char
  | '.' :: cs => (some (cs.takeWhile Char.isDigit), cs.dropWhile Char.isDigit)
  | cs => (none, cs)

/-- The digits of an exponent behind its sign. -/
def lexExponentDigits (sign : Option Char) (cs unread : List Char) :
    Option (Option Char × List Char) × List Char :=
  if cs.takeWhile Char.isDigit = [] then (none, unread)
  else (some (sign, cs.takeWhile Char.isDigit), cs.dropWhile Char.isDigit)

/-- The exponent of a number. -/
def lexExponent : List Char → Option (Option Char × List Char) × List Char
  | [] => (none, [])
  | [c] => (none, [c])
  | c :: d :: cs =>
    if c = 'e' ∨ c = 'E' then
      if d = '+' ∨ d = '-' then lexExponentDigits (some d) cs (c :: d :: cs)
      else lexExponentDigits none (d :: cs) (c :: d :: cs)
    else (none, c :: d :: cs)

/-- A number. -/
def lexNumeral (cs : List Char) : Numeral × List Char :=
  let fraction := lexFraction (cs.dropWhile Char.isDigit)
  let exponent := lexExponent fraction.2
  (⟨cs.takeWhile Char.isDigit, fraction.1, exponent.1⟩, exponent.2)

/-- The operators of two characters. -/
def isPair (c d : Char) : Bool :=
  (c = '<' && (d = '=' || d = '>')) || (c = '>' && d = '=') || (c = '!' && d = '=') ||
    (c = '|' && d = '|')

/-- An operator or a mark. -/
def lexSymbol (c : Char) : List Char → String × List Char
  | d :: cs => if isPair c d then (String.ofList [c, d], cs) else (String.ofList [c], d :: cs)
  | [] => (String.ofList [c], [])

/-- The tokens of a text, or nothing where a literal or a comment is not closed. -/
def lexWith : ℕ → List Char → Option (List Token)
  | 0, _ => none
  | _ + 1, [] => some []
  | n + 1, c :: cs =>
    if isBlankChar c then lexWith n cs
    else if c = quote then
      match lexQuoted quote cs with
      | none => none
      | some (value, rest) => (lexWith n rest).map (.text (String.ofList value) :: ·)
    else if c = '"' then
      match lexQuoted '"' cs with
      | none => none
      | some (name, rest) => (lexWith n rest).map (.quoted (String.ofList name) :: ·)
    else if isWordStart c then
      (lexWith n ((c :: cs).dropWhile isWordChar)).map
        (.word (String.ofList ((c :: cs).takeWhile isWordChar)) :: ·)
    else if c.isDigit then
      (lexWith n (lexNumeral (c :: cs)).2).map (.number (lexNumeral (c :: cs)).1 :: ·)
    else if c = '-' ∧ cs.head? = some '-' then lexWith n (cs.dropWhile (· ≠ '\n'))
    else if c = '/' ∧ cs.head? = some '*' then
      match skipBlock cs.tail with
      | none => none
      | some rest => lexWith n rest
    else (lexWith n (lexSymbol c cs).2).map (.symbol (lexSymbol c cs).1 :: ·)

/-- The tokens of a text. -/
def lex (cs : List Char) : Option (List Token) := lexWith (cs.length + 1) cs

/-- The text has these tokens, with any fuel that is enough. -/
def Lexes (cs : List Char) (ts : List Token) : Prop := ∀ n, cs.length < n → lexWith n cs = some ts

theorem Lexes.lex {cs : List Char} {ts : List Token} (h : Lexes cs ts) : lex cs = some ts :=
  h _ (Nat.lt_succ_self _)

/-! ### One token -/

section Tokens

variable {c : Char} {cs rest : List Char} {ts : List Token}

theorem Lexes.nil : Lexes [] [] := by
  intro n hn
  cases n with
  | zero => exact absurd hn (Nat.lt_irrefl 0)
  | succ n => rfl

theorem Lexes.blank (hc : isBlankChar c = true) (h : Lexes rest ts) : Lexes (c :: rest) ts := by
  intro n hn
  cases n with
  | zero => exact absurd hn (Nat.not_lt_zero _)
  | succ n =>
    rw [lexWith, if_pos hc]
    exact h n (Nat.lt_of_succ_lt_succ hn)

/-- A literal, with every quote in it doubled. -/
def doubled (q : Char) (cs : List Char) : List Char := cs.flatMap fun c => if c = q then [q, q] else [c]

/-- **Quoting is reversible.** A literal is read back as it was, whatever it contains. -/
theorem lexQuoted_doubled (q : Char) (cs : List Char) (hrest : rest.head? ≠ some q) :
    lexQuoted q (doubled q cs ++ q :: rest) = some (cs, rest) := by
  induction cs with
  | nil =>
    cases rest with
    | nil => simp [doubled, lexQuoted]
    | cons d rest =>
      have hd : d ≠ q := fun heq => hrest (by rw [heq, List.head?_cons])
      simp [doubled, lexQuoted, hd]
  | cons c cs ih =>
    rw [doubled, List.flatMap_cons, ← doubled]
    by_cases hc : c = q
    · subst hc
      rw [if_pos rfl]
      simp only [List.cons_append, List.nil_append, lexQuoted, if_true, ih, Option.map_some]
    · rw [if_neg hc]
      obtain ⟨d, tail, htail⟩ : ∃ d tail, doubled q cs ++ q :: rest = d :: tail :=
        List.exists_cons_of_ne_nil (by simp)
      rw [htail] at ih
      simp only [List.cons_append, List.nil_append, htail, lexQuoted, if_neg hc, ih, Option.map_some]

theorem Lexes.text (s : String) (hrest : rest.head? ≠ some quote) (h : Lexes rest ts) :
    Lexes (quote :: (doubled quote s.toList ++ quote :: rest)) (.text s :: ts) := by
  intro n hn
  cases n with
  | zero => exact absurd hn (Nat.not_lt_zero _)
  | succ n =>
    have hlength : rest.length < n := by
      simp only [List.length_cons, List.length_append] at hn
      omega
    rw [lexWith, if_neg (by decide), if_pos rfl, lexQuoted_doubled quote _ hrest]
    simp only [h n hlength, Option.map_some, String.ofList_toList]

/-- The text does not go on with a character of this kind. -/
def Stops (p : Char → Bool) (rest : List Char) : Prop := ∀ c, rest.head? = some c → p c = false

theorem takeWhile_stops {p : Char → Bool} {l : List Char} (hl : ∀ c ∈ l, p c = true)
    (hrest : Stops p rest) : (l ++ rest).takeWhile p = l := by
  rw [List.takeWhile_append_of_pos hl]
  cases rest with
  | nil => rw [List.takeWhile_nil, List.append_nil]
  | cons c rest =>
    rw [List.takeWhile_cons_of_neg (by rw [hrest c rfl]; decide), List.append_nil]

theorem dropWhile_stops {p : Char → Bool} {l : List Char} (hl : ∀ c ∈ l, p c = true)
    (hrest : Stops p rest) : (l ++ rest).dropWhile p = rest := by
  rw [List.dropWhile_append_of_pos hl]
  cases rest with
  | nil => rw [List.dropWhile_nil]
  | cons c rest => exact List.dropWhile_cons_of_neg (by rw [hrest c rfl]; decide)

/-- The text is a word. -/
structure IsWord (w : String) : Prop where
  start : ∃ c cs, w.toList = c :: cs ∧ isWordStart c = true
  chars : ∀ c ∈ w.toList, isWordChar c = true

theorem isWordStart_ne {c : Char} (h : isWordStart c = true) :
    isBlankChar c = false ∧ c ≠ quote ∧ c ≠ '"' := by
  refine ⟨?_, ?_, ?_⟩
  · by_contra hblank
    simp only [isBlankChar, Bool.not_eq_false, Bool.or_eq_true, decide_eq_true_iff] at hblank
    rcases hblank with ((rfl | rfl) | rfl) | rfl <;> exact absurd h (by decide)
  · rintro rfl
    exact absurd h (by decide)
  · rintro rfl
    exact absurd h (by decide)

theorem Lexes.word {w : String} (hw : IsWord w) (hrest : Stops isWordChar rest) (h : Lexes rest ts) :
    Lexes (w.toList ++ rest) (.word w :: ts) := by
  obtain ⟨c, cs, hcons, hstart⟩ := hw.start
  obtain ⟨hblank, hquote, hidentifier⟩ := isWordStart_ne hstart
  intro n hn
  cases n with
  | zero => exact absurd hn (Nat.not_lt_zero _)
  | succ n =>
    have hlength : rest.length < n := by
      rw [hcons] at hn
      simp only [List.length_cons, List.length_append] at hn
      omega
    have htake := takeWhile_stops hw.chars hrest
    have hdrop := dropWhile_stops hw.chars hrest
    rw [hcons, List.cons_append] at htake hdrop ⊢
    rw [lexWith, if_neg (by rw [hblank]; decide), if_neg hquote, if_neg hidentifier, if_pos hstart,
      htake, hdrop, h n hlength, Option.map_some, ← hcons, String.ofList_toList]

/-- The digits of a number that is written out. -/
structure Numeral.WellFormed (n : Numeral) : Prop where
  whole_ne_nil : n.whole ≠ []
  whole : ∀ c ∈ n.whole, c.isDigit = true
  fraction : ∀ ds, n.fraction = some ds → ∀ c ∈ ds, c.isDigit = true
  exponent : ∀ sign ds, n.exponent = some (sign, ds) → ds ≠ [] ∧ (∀ c ∈ ds, c.isDigit = true) ∧
    ∀ c, sign = some c → c = '+' ∨ c = '-'

/-- The text of a number. -/
def Numeral.render (n : Numeral) : List Char :=
  n.whole ++ (n.fraction.elim [] ('.' :: ·) ++
    n.exponent.elim [] fun e => 'e' :: (e.1.toList ++ e.2))

/-- The text does not go on with a number. -/
def StopsNumeral (rest : List Char) : Prop :=
  ∀ c, rest.head? = some c → c.isDigit = false ∧ c ≠ '.' ∧ c ≠ 'e' ∧ c ≠ 'E'

theorem lexFraction_none (h : ∀ c, cs.head? = some c → c ≠ '.') : lexFraction cs = (none, cs) := by
  unfold lexFraction
  split
  · exact absurd rfl (h _ rfl)
  · rfl

theorem lexExponent_none (h : ∀ c, cs.head? = some c → c ≠ 'e' ∧ c ≠ 'E') :
    lexExponent cs = (none, cs) := by
  match cs with
  | [] => rfl
  | [_] => rfl
  | c :: d :: cs =>
    obtain ⟨he, hE⟩ := h c rfl
    exact if_neg (not_or.mpr ⟨he, hE⟩)

theorem lexExponent_some {sign : Option Char} {ds : List Char} (hds : ds ≠ [])
    (hdigits : ∀ c ∈ ds, c.isDigit = true) (hsign : ∀ c, sign = some c → c = '+' ∨ c = '-')
    (hrest : Stops Char.isDigit rest) :
    lexExponent ('e' :: ((sign.toList ++ ds) ++ rest)) = (some (sign, ds), rest) := by
  have htake := takeWhile_stops hdigits hrest
  have hdrop := dropWhile_stops hdigits hrest
  cases sign with
  | some c =>
    show lexExponent ('e' :: c :: (ds ++ rest)) = _
    rw [lexExponent, if_pos (.inl rfl), if_pos (hsign c rfl), lexExponentDigits, htake, if_neg hds, hdrop]
  | none =>
    obtain ⟨d, tail, rfl⟩ := List.exists_cons_of_ne_nil hds
    have hd : ¬ (d = '+' ∨ d = '-') := by
      rintro (rfl | rfl) <;> exact absurd (hdigits _ List.mem_cons_self) (by decide)
    show lexExponent ('e' :: d :: (tail ++ rest)) = _
    rw [List.cons_append] at htake hdrop
    rw [lexExponent, if_pos (.inl rfl), if_neg hd, lexExponentDigits, htake, if_neg hds, hdrop]

/-- A number is read back as it was. -/
theorem lexNumeral_render {n : Numeral} (hn : n.WellFormed) (hrest : StopsNumeral rest) :
    lexNumeral (n.render ++ rest) = (n, rest) := by
  obtain ⟨whole, fraction, exponent⟩ := n
  have hdigits : Stops Char.isDigit rest := fun c hc => (hrest c hc).1
  have hexponent : lexExponent ((exponent.elim [] fun e => 'e' :: (e.1.toList ++ e.2)) ++ rest) =
      (exponent, rest) := by
    cases exponent with
    | none => exact lexExponent_none fun c hc => ⟨(hrest c hc).2.2.1, (hrest c hc).2.2.2⟩
    | some e =>
      obtain ⟨sign, ds⟩ := e
      obtain ⟨hne, hds, hsign⟩ := hn.exponent sign ds rfl
      exact lexExponent_some hne hds hsign hdigits
  have hstops : Stops Char.isDigit ((exponent.elim [] fun e => 'e' :: (e.1.toList ++ e.2)) ++ rest) := by
    cases exponent with
    | none => exact hdigits
    | some e =>
      intro c hc
      obtain rfl : 'e' = c := Option.some_inj.mp hc
      decide
  have hfraction : lexFraction ((fraction.elim [] ('.' :: ·)) ++
      ((exponent.elim [] fun e => 'e' :: (e.1.toList ++ e.2)) ++ rest)) =
      (fraction, (exponent.elim [] fun e => 'e' :: (e.1.toList ++ e.2)) ++ rest) := by
    cases fraction with
    | none =>
      refine lexFraction_none fun c hc => ?_
      cases exponent with
      | none => exact (hrest c hc).2.1
      | some e =>
        obtain rfl : 'e' = c := Option.some_inj.mp hc
        decide
    | some ds =>
      exact congrArg₂ (fun a b => (some a, b)) (takeWhile_stops (hn.fraction ds rfl) hstops)
        (dropWhile_stops (hn.fraction ds rfl) hstops)
  have hwhole : Stops Char.isDigit ((fraction.elim [] ('.' :: ·)) ++
      ((exponent.elim [] fun e => 'e' :: (e.1.toList ++ e.2)) ++ rest)) := by
    cases fraction with
    | none => exact hstops
    | some ds =>
      intro c hc
      obtain rfl : '.' = c := Option.some_inj.mp hc
      decide
  have htake := takeWhile_stops hn.whole hwhole
  have hdrop := dropWhile_stops hn.whole hwhole
  simp only [Numeral.render, List.append_assoc] at htake hdrop ⊢
  rw [lexNumeral, htake, hdrop, hfraction]
  simp only [hexponent]

theorem isDigit_ne {c : Char} (h : c.isDigit = true) :
    isBlankChar c = false ∧ c ≠ quote ∧ c ≠ '"' ∧ isWordStart c = false := by
  have hrange : 48 ≤ c.val.toNat ∧ c.val.toNat ≤ 57 := by
    simp only [Char.isDigit, Bool.and_eq_true, decide_eq_true_iff] at h
    exact ⟨h.1, h.2⟩
  refine ⟨?_, ?_, ?_, ?_⟩
  · by_contra hblank
    simp only [isBlankChar, Bool.not_eq_false, Bool.or_eq_true, decide_eq_true_iff] at hblank
    rcases hblank with ((rfl | rfl) | rfl) | rfl <;> exact absurd h (by decide)
  · rintro rfl
    exact absurd h (by decide)
  · rintro rfl
    exact absurd h (by decide)
  · by_contra hstart
    simp only [isWordStart, Bool.not_eq_false, Bool.or_eq_true, decide_eq_true_iff] at hstart
    have hletter : c.isAlpha = true → 65 ≤ c.val ∨ 97 ≤ c.val := by
      intro hletter
      delta Char.isAlpha at hletter
      rcases Bool.or_eq_true_iff.mp hletter with hupper | hlower
      · delta Char.isUpper at hupper
        exact .inl (of_decide_eq_true hupper).1
      · delta Char.isLower at hlower
        exact .inr (of_decide_eq_true (Bool.and_eq_true_iff.mp hlower).1)
    rcases hstart.imp_left hletter with (hlow | hlow) | rfl
    · have hletter : 65 ≤ c.val.toNat := UInt32.le_iff_toNat_le.mp hlow
      omega
    · have hletter : 97 ≤ c.val.toNat := UInt32.le_iff_toNat_le.mp hlow
      omega
    · exact absurd h (by decide)

theorem Lexes.number {n : Numeral} (hn : n.WellFormed) (hrest : StopsNumeral rest) (h : Lexes rest ts) :
    Lexes (n.render ++ rest) (.number n :: ts) := by
  obtain ⟨c, cs, hwhole⟩ := List.exists_cons_of_ne_nil hn.whole_ne_nil
  obtain ⟨hblank, hquote, hidentifier, hword⟩ :=
    isDigit_ne (hn.whole c (hwhole ▸ List.mem_cons_self))
  obtain ⟨tail, htail⟩ : ∃ tail, n.render ++ rest = c :: tail := by
    rw [Numeral.render, hwhole]
    exact ⟨_, rfl⟩
  have hlexed := lexNumeral_render hn hrest
  intro m hm
  cases m with
  | zero => exact absurd hm (Nat.not_lt_zero _)
  | succ m =>
    have hlength : rest.length < m := by
      rw [List.length_append, Numeral.render, hwhole] at hm
      simp only [List.length_cons, List.length_append] at hm
      omega
    rw [htail] at hlexed ⊢
    rw [lexWith, if_neg (by rw [hblank]; decide), if_neg hquote, if_neg hidentifier,
      if_neg (by rw [hword]; decide), if_pos (hn.whole c (hwhole ▸ List.mem_cons_self)), hlexed,
      h m hlength, Option.map_some]

/-- A character that starts no other token. -/
def isMark (c : Char) : Bool :=
  !(isBlankChar c || c = quote || c = '"' || isWordStart c || c.isDigit)

theorem isMark_ne {c : Char} (h : isMark c = true) : isBlankChar c = false ∧ c ≠ quote ∧ c ≠ '"' ∧
    isWordStart c = false ∧ c.isDigit = false := by
  simp only [isMark, Bool.not_eq_true', Bool.or_eq_false_iff, decide_eq_false_iff_not] at h
  obtain ⟨⟨⟨⟨hblank, hquote⟩, hidentifier⟩, hword⟩, hdigit⟩ := h
  exact ⟨hblank, hquote, hidentifier, hword, hdigit⟩

theorem lexWith_mark {n : ℕ} (hc : isMark c = true) (hline : ¬ (c = '-' ∧ cs.head? = some '-'))
    (hblock : ¬ (c = '/' ∧ cs.head? = some '*')) :
    lexWith (n + 1) (c :: cs) =
      (lexWith n (lexSymbol c cs).2).map (.symbol (lexSymbol c cs).1 :: ·) := by
  obtain ⟨hblank, hquote, hidentifier, hword, hdigit⟩ := isMark_ne hc
  rw [lexWith, if_neg (by rw [hblank]; decide), if_neg hquote, if_neg hidentifier,
    if_neg (by rw [hword]; decide), if_neg (by rw [hdigit]; decide), if_neg hline, if_neg hblock]

/-- An operator of one character. -/
theorem Lexes.mark (hc : isMark c = true)
    (hrest : ∀ d, rest.head? = some d → isPair c d = false ∧ ¬ (c = '-' ∧ d = '-') ∧ ¬ (c = '/' ∧ d = '*'))
    (h : Lexes rest ts) : Lexes (c :: rest) (.symbol (String.ofList [c]) :: ts) := by
  have hsymbol : lexSymbol c rest = (String.ofList [c], rest) := by
    cases rest with
    | nil => rfl
    | cons d rest => exact if_neg (Bool.eq_false_iff.mp (hrest d rfl).1)
  intro n hn
  cases n with
  | zero => exact absurd hn (Nat.not_lt_zero _)
  | succ n =>
    rw [lexWith_mark hc (fun hand => (hrest _ hand.2).2.1 ⟨hand.1, rfl⟩)
      (fun hand => (hrest _ hand.2).2.2 ⟨hand.1, rfl⟩), hsymbol, h n (Nat.lt_of_succ_lt_succ hn),
      Option.map_some]

/-- An operator of two characters. -/
theorem Lexes.pair {d : Char} (hc : isMark c = true) (hpair : isPair c d = true) (h : Lexes rest ts) :
    Lexes (c :: d :: rest) (.symbol (String.ofList [c, d]) :: ts) := by
  have hsymbol : lexSymbol c (d :: rest) = (String.ofList [c, d], rest) := if_pos hpair
  have hstart : c ≠ '-' ∧ c ≠ '/' := by
    constructor
    · rintro rfl
      exact absurd hpair (by simp [isPair])
    · rintro rfl
      exact absurd hpair (by simp [isPair])
  intro n hn
  cases n with
  | zero => exact absurd hn (Nat.not_lt_zero _)
  | succ n =>
    have hlength : rest.length < n := by
      simp only [List.length_cons] at hn
      omega
    rw [lexWith_mark hc (fun hand => hstart.1 hand.1) (fun hand => hstart.2 hand.1), hsymbol,
      h n hlength, Option.map_some]

end Tokens

/-! ### Conditions -/

/-- An operator of a comparison. -/
inductive CompareOp
  | eq
  | ne
  | lt
  | le
  | gt
  | ge
  deriving DecidableEq, Repr

/-- The text of an operator. -/
def CompareOp.text : CompareOp → String
  | .eq => "="
  | .ne => "!="
  | .lt => "<"
  | .le => "<="
  | .gt => ">"
  | .ge => ">="

/-- The operator of a text. -/
def readOp (text : String) : Option CompareOp :=
  if text = "=" then some .eq else if text = "!=" ∨ text = "<>" then some .ne
  else if text = "<" then some .lt else if text = "<=" then some .le
  else if text = ">" then some .gt else if text = ">=" then some .ge else none

/-- A literal: a string, a signed number, a truth value, or a typed string. -/
inductive Literal
  | text (value : String)
  | number (negative : Bool) (n : Numeral)
  | boolean (value : Bool)
  | date (value : String)
  | timestamp (value : String)
  deriving DecidableEq, Repr

/-- A comparison of a field. -/
inductive Condition
  | compare (field : String) (op : CompareOp) (value : Literal)
  | isIn (field : String) (values : List Literal)
  deriving DecidableEq, Repr

/-- A literal at the start of some tokens. -/
def readLiteral : List Token → Option (Literal × List Token)
  | .text value :: ts => some (.text value, ts)
  | .number n :: ts => some (.number false n, ts)
  | .symbol sign :: .number n :: ts => if sign = "-" then some (.number true n, ts) else none
  | .word w :: ts =>
    if w.toUpper = "TRUE" then some (.boolean true, ts)
    else if w.toUpper = "FALSE" then some (.boolean false, ts)
    else
      match ts with
      | .text value :: ts =>
        if w.toUpper = "DATE" then some (.date value, ts)
        else if w.toUpper = "TIMESTAMP" then some (.timestamp value, ts) else none
      | _ => none
  | _ => none

/-- The literals up to a closing parenthesis. -/
def readLiterals : ℕ → List Token → Option (List Literal × List Token)
  | 0, _ => none
  | n + 1, ts =>
    match readLiteral ts with
    | some (l, .symbol mark :: rest) =>
      if mark = "," then (readLiterals n rest).map fun r => (l :: r.1, r.2)
      else if mark = ")" then some ([l], rest) else none
    | _ => none

/-- A comparison at the start of some tokens. -/
def readCondition : List Token → Option (Condition × List Token)
  | .word field :: .symbol op :: ts =>
    match readOp op, readLiteral ts with
    | some op, some (value, rest) => some (.compare field op value, rest)
    | _, _ => none
  | .word field :: .word w :: .symbol mark :: ts =>
    if w.toUpper = "IN" ∧ mark = "(" then
      (readLiterals (ts.length + 1) ts).map fun r => (.isIn field r.1, r.2)
    else none
  | _ => none

/-- A conjunction of comparisons. -/
def readConjunction : ℕ → List Token → Option (List Condition)
  | 0, _ => none
  | n + 1, ts =>
    match readCondition ts with
    | some (c, []) => some [c]
    | some (c, .word w :: rest) =>
      if w.toUpper = "AND" then (readConjunction n rest).map (c :: ·) else none
    | _ => none

/-- What a clause says. -/
def readClause (clause : String) : Option (List Condition) :=
  (lex clause.toList).bind fun ts => readConjunction (ts.length + 1) ts

example : readClause "a = 'x' AND b IN (-1, 2.5e-07) -- AND c = 1" =
    some [.compare "a" .eq (.text "x"), .isIn "b" [.number true ⟨['1'], none, none⟩,
      .number false ⟨['2'], some ['5'], some (some '-', ['0', '7'])⟩]] := by
  decide +kernel

/-! ### Written conditions -/

/-- The text of a string literal. -/
def renderText (value : String) : List Char := quote :: (doubled quote value.toList ++ [quote])

/-- The word of a truth value. -/
def booleanWord (b : Bool) : String := if b then "TRUE" else "FALSE"

/-- The text of a literal. -/
def Literal.render : Literal → List Char
  | .text value => renderText value
  | .number negative n => (if negative then ['-'] else []) ++ n.render
  | .boolean value => (booleanWord value).toList
  | .date value => "DATE".toList ++ ' ' :: renderText value
  | .timestamp value => "TIMESTAMP".toList ++ ' ' :: renderText value

theorem Literal.render_date (value : String) :
    (Literal.date value).render = "DATE".toList ++ ' ' :: renderText value := rfl

theorem Literal.render_timestamp (value : String) :
    (Literal.timestamp value).render = "TIMESTAMP".toList ++ ' ' :: renderText value := rfl

/-- The tokens of a literal. -/
def Literal.tokens : Literal → List Token
  | .text value => [.text value]
  | .number negative n => (if negative then [.symbol "-"] else []) ++ [.number n]
  | .boolean value => [.word (booleanWord value)]
  | .date value => [.word "DATE", .text value]
  | .timestamp value => [.word "TIMESTAMP", .text value]

/-- The digits of the literal, if any, are written out. -/
def Literal.WellFormed : Literal → Prop
  | .number _ n => n.WellFormed
  | _ => True

/-- The texts of the literals of a list. -/
def renderLiterals : List Literal → List Char
  | [] => []
  | [l] => l.render
  | l :: ls => l.render ++ ',' :: ' ' :: renderLiterals ls

/-- The tokens of the literals of a list. -/
def literalTokens : List Literal → List Token
  | [] => []
  | [l] => l.tokens
  | l :: ls => l.tokens ++ .symbol "," :: literalTokens ls

/-- The text of a comparison. -/
def Condition.render : Condition → List Char
  | .compare field op value => field.toList ++ ' ' :: (op.text.toList ++ ' ' :: value.render)
  | .isIn field values => field.toList ++ ' ' :: ("IN".toList ++ ' ' :: '(' ::
      (renderLiterals values ++ [')']))

/-- The tokens of a comparison. -/
def Condition.tokens : Condition → List Token
  | .compare field op value => .word field :: .symbol op.text :: value.tokens
  | .isIn field values => .word field :: .word "IN" :: .symbol "(" ::
      (literalTokens values ++ [.symbol ")"])

/-- The field is a word, the digits of the literals are written out, and a list of literals is not
empty. -/
def Condition.WellFormed : Condition → Prop
  | .compare field _ value => IsWord field ∧ value.WellFormed
  | .isIn field values => IsWord field ∧ values ≠ [] ∧ ∀ value ∈ values, value.WellFormed

/-- The text of a conjunction. -/
def renderConjunction : List Condition → List Char
  | [] => []
  | [c] => c.render
  | c :: cs => c.render ++ ' ' :: ("AND".toList ++ ' ' :: renderConjunction cs)

/-- The tokens of a conjunction. -/
def conjunctionTokens : List Condition → List Token
  | [] => []
  | [c] => c.tokens
  | c :: cs => c.tokens ++ .word "AND" :: conjunctionTokens cs

section Written

variable {rest : List Char} {ts : List Token}

/-- The text ends, or goes on with a character between literals. -/
def Delimited (rest : List Char) : Prop := ∀ c, rest.head? = some c → c = ' ' ∨ c = ',' ∨ c = ')'

theorem Delimited.nil : Delimited [] := fun _ hc => by cases hc

theorem Delimited.cons {c : Char} (hc : c = ' ' ∨ c = ',' ∨ c = ')') : Delimited (c :: rest) := by
  intro d hd
  obtain rfl := Option.some_inj.mp hd
  exact hc

theorem Delimited.stops (h : Delimited rest) : Stops isWordChar rest := by
  intro c hc
  rcases h c hc with rfl | rfl | rfl <;> decide

theorem Delimited.stopsNumeral (h : Delimited rest) : StopsNumeral rest := by
  intro c hc
  rcases h c hc with rfl | rfl | rfl <;> decide

theorem Delimited.head_ne (h : Delimited rest) : rest.head? ≠ some quote := by
  intro hc
  rcases h quote hc with heq | heq | heq <;> exact absurd heq (by decide)

theorem isWord_of_decide {w : String} (hstart : (w.toList.head?.map isWordStart) = some true)
    (hchars : w.toList.all isWordChar = true) : IsWord w := by
  refine ⟨?_, fun c hc => List.all_eq_true.mp hchars c hc⟩
  cases hcons : w.toList with
  | nil =>
    rw [hcons] at hstart
    cases hstart
  | cons c cs =>
    rw [hcons] at hstart
    exact ⟨c, cs, rfl, Option.some_inj.mp hstart⟩

theorem Lexes.renderText (value : String) (hrest : rest.head? ≠ some quote) (h : Lexes rest ts) :
    Lexes (renderText value ++ rest) (.text value :: ts) := by
  rw [Sql.renderText, List.cons_append, List.append_assoc]
  exact Lexes.text value hrest h

theorem Lexes.keyword {w : String} (hw : IsWord w) (h : Lexes rest ts) :
    Lexes (w.toList ++ ' ' :: rest) (.word w :: ts) :=
  Lexes.word hw (Delimited.cons (.inl rfl)).stops (Lexes.blank (by decide) h)

theorem Lexes.literal {l : Literal} (hl : l.WellFormed) (hrest : Delimited rest) (h : Lexes rest ts) :
    Lexes (l.render ++ rest) (l.tokens ++ ts) := by
  cases l with
  | text value => exact Lexes.renderText value hrest.head_ne h
  | number negative n =>
    have hnumber := Lexes.number hl hrest.stopsNumeral h
    cases negative with
    | false => exact hnumber
    | true =>
      have hn : n.WellFormed := hl
      obtain ⟨d, ds, hwhole⟩ := List.exists_cons_of_ne_nil hn.whole_ne_nil
      have hdigit := hn.whole d (hwhole ▸ List.mem_cons_self)
      refine Lexes.mark (c := '-') (by decide) (fun e he => ?_) hnumber
      have hhead : (n.render ++ rest).head? = some d := by
        rw [Numeral.render, hwhole]
        rfl
      obtain rfl : d = e := Option.some_inj.mp (hhead.symm.trans he)
      refine ⟨rfl, ?_, ?_⟩
      · rintro ⟨-, rfl⟩
        exact absurd hdigit (by decide)
      · rintro ⟨hminus, -⟩
        exact absurd hminus (by decide)
  | boolean value =>
    have hword : IsWord (booleanWord value) := by
      unfold booleanWord
      split <;> exact isWord_of_decide (by decide) (by decide)
    exact Lexes.word hword hrest.stops h
  | date value =>
    have hword : IsWord "DATE" := isWord_of_decide (by decide) (by decide)
    have htext := Lexes.keyword hword (Lexes.renderText value hrest.head_ne h)
    rw [Literal.render_date, List.append_assoc, List.cons_append]
    exact htext
  | timestamp value =>
    have hword : IsWord "TIMESTAMP" := isWord_of_decide (by decide) (by decide)
    have htext := Lexes.keyword hword (Lexes.renderText value hrest.head_ne h)
    rw [Literal.render_timestamp, List.append_assoc, List.cons_append]
    exact htext

theorem Lexes.literals {ls : List Literal} (hls : ∀ l ∈ ls, l.WellFormed) (hrest : Delimited rest)
    (h : Lexes rest ts) : Lexes (renderLiterals ls ++ rest) (literalTokens ls ++ ts) := by
  induction ls with
  | nil => exact h
  | cons l ls ih =>
    obtain ⟨hl, hls⟩ := List.forall_mem_cons.mp hls
    cases ls with
    | nil => exact Lexes.literal hl hrest h
    | cons l' ls =>
      have hmark : Lexes (',' :: ' ' :: (renderLiterals (l' :: ls) ++ rest))
          (.symbol "," :: (literalTokens (l' :: ls) ++ ts)) := by
        refine Lexes.mark (c := ',') (by decide) (fun d hd => ?_) (Lexes.blank (by decide) (ih hls))
        obtain rfl : ' ' = d := Option.some_inj.mp hd
        decide
      rw [renderLiterals, literalTokens, List.append_assoc, List.append_assoc, List.cons_append,
        List.cons_append, List.cons_append]
      · exact Lexes.literal hl (Delimited.cons (.inr (.inl rfl))) hmark
      · simp
      · simp

theorem Lexes.op (op : CompareOp) (h : Lexes rest ts) :
    Lexes (op.text.toList ++ ' ' :: rest) (.symbol op.text :: ts) := by
  have hblank : Lexes (' ' :: rest) ts := Lexes.blank (by decide) h
  have hmark : ∀ {c : Char}, isMark c = true → (isPair c ' ' = false ∧ ¬ (c = '-' ∧ ' ' = '-') ∧
      ¬ (c = '/' ∧ ' ' = '*')) → Lexes (c :: ' ' :: rest) (.symbol (String.ofList [c]) :: ts) := by
    intro c hc hpair
    refine Lexes.mark hc (fun d hd => ?_) hblank
    obtain rfl : ' ' = d := Option.some_inj.mp hd
    exact hpair
  cases op with
  | eq => exact hmark (c := '=') (by decide) (by decide)
  | lt => exact hmark (c := '<') (by decide) (by decide)
  | gt => exact hmark (c := '>') (by decide) (by decide)
  | ne => exact Lexes.pair (c := '!') (d := '=') (by decide) (by decide) hblank
  | le => exact Lexes.pair (c := '<') (d := '=') (by decide) (by decide) hblank
  | ge => exact Lexes.pair (c := '>') (d := '=') (by decide) (by decide) hblank

theorem Lexes.condition {c : Condition} (hc : c.WellFormed) (hrest : Delimited rest) (h : Lexes rest ts) :
    Lexes (c.render ++ rest) (c.tokens ++ ts) := by
  cases c with
  | compare field op value =>
    simp only [Condition.render, Condition.tokens, List.append_assoc, List.cons_append]
    exact Lexes.keyword hc.1 (Lexes.op op (Lexes.literal hc.2 hrest h))
  | isIn field values =>
    simp only [Condition.render, Condition.tokens, List.append_assoc, List.cons_append, List.nil_append]
    refine Lexes.keyword hc.1 (Lexes.keyword (isWord_of_decide (by decide) (by decide)) ?_)
    have hclose : Lexes (')' :: rest) (.symbol ")" :: ts) := by
      refine Lexes.mark (c := ')') (by decide) (fun d hd => ?_) h
      rcases hrest d hd with rfl | rfl | rfl <;> decide
    refine Lexes.mark (c := '(') (by decide) (fun d hd => ?_)
      (Lexes.literals hc.2.2 (Delimited.cons (.inr (.inr rfl))) hclose)
    refine ⟨?_, ?_, ?_⟩
    · simp [isPair]
    · rintro ⟨heq, -⟩
      exact absurd heq (by decide)
    · rintro ⟨heq, -⟩
      exact absurd heq (by decide)

/-- The tokens of a written conjunction. -/
theorem Lexes.conjunction {cs : List Condition} (hcs : ∀ c ∈ cs, c.WellFormed) :
    Lexes (renderConjunction cs) (conjunctionTokens cs) := by
  induction cs with
  | nil => exact Lexes.nil
  | cons c cs ih =>
    obtain ⟨hc, hcs⟩ := List.forall_mem_cons.mp hcs
    cases cs with
    | nil =>
      have hlexes := Lexes.condition hc Delimited.nil Lexes.nil
      rwa [List.append_nil, List.append_nil] at hlexes
    | cons c' cs =>
      rw [renderConjunction, conjunctionTokens]
      · exact Lexes.condition hc (Delimited.cons (.inl rfl)) (Lexes.blank (by decide)
          (Lexes.keyword (isWord_of_decide (by decide) (by decide)) (ih hcs)))
      · simp
      · simp

/-! ### Reading what was written -/

theorem readLiteral_tokens (l : Literal) (ts : List Token) : readLiteral (l.tokens ++ ts) = some (l, ts) := by
  have htrue : "TRUE".toUpper = "TRUE" := by decide +kernel
  have hfalse : "FALSE".toUpper = "FALSE" := by decide +kernel
  have hdate : "DATE".toUpper = "DATE" := by decide +kernel
  have htimestamp : "TIMESTAMP".toUpper = "TIMESTAMP" := by decide +kernel
  cases l with
  | text value => rfl
  | number negative n => cases negative <;> rfl
  | boolean value => cases value <;> simp [Literal.tokens, booleanWord, readLiteral, htrue, hfalse]
  | date value => simp [Literal.tokens, readLiteral, hdate]
  | timestamp value => simp [Literal.tokens, readLiteral, htimestamp]

theorem readLiterals_tokens {ls : List Literal} (hls : ls ≠ []) {n : ℕ} (hn : ls.length ≤ n)
    (ts : List Token) : readLiterals n (literalTokens ls ++ .symbol ")" :: ts) = some (ls, ts) := by
  induction ls generalizing n with
  | nil => exact absurd rfl hls
  | cons l ls ih =>
    obtain ⟨n, rfl⟩ : ∃ m, n = m + 1 := ⟨n - 1, by simp only [List.length_cons] at hn; omega⟩
    cases ls with
    | nil =>
      rw [readLiterals, literalTokens, readLiteral_tokens]
      rfl
    | cons l' ls =>
      have hrest := ih (List.cons_ne_nil _ _) (Nat.le_of_succ_le_succ hn)
      rw [readLiterals, literalTokens, List.append_assoc, List.cons_append, readLiteral_tokens]
      · simp only [if_true, hrest, Option.map_some]
      · simp

theorem length_le_literalTokens (ls : List Literal) : ls.length ≤ (literalTokens ls).length := by
  have hpos : ∀ l : Literal, 1 ≤ l.tokens.length := by
    intro l
    cases l <;> simp [Literal.tokens]
  induction ls with
  | nil => exact Nat.le_refl _
  | cons l ls ih =>
    cases ls with
    | nil => exact hpos l
    | cons l' ls =>
      rw [literalTokens]
      · simp only [List.length_cons, List.length_append] at ih ⊢
        omega
      · simp

theorem readCondition_tokens {c : Condition} (hc : c.WellFormed) (ts : List Token) :
    readCondition (c.tokens ++ ts) = some (c, ts) := by
  cases c with
  | compare field op value =>
    have hop : readOp op.text = some op := by cases op <;> decide
    simp only [Condition.tokens, List.cons_append, readCondition, hop, readLiteral_tokens]
  | isIn field values =>
    have hin : "IN".toUpper = "IN" := by decide +kernel
    have hread := readLiterals_tokens hc.2.1 (n := (literalTokens values ++ .symbol ")" :: ts).length + 1)
      (by
        have hlength := length_le_literalTokens values
        rw [List.length_append]
        omega) ts
    simp only [Condition.tokens, List.cons_append, List.append_assoc, List.nil_append, readCondition,
      hin, and_self, if_true, hread, Option.map_some]

theorem readConjunction_tokens {cs : List Condition} (hne : cs ≠ []) (hcs : ∀ c ∈ cs, c.WellFormed)
    {n : ℕ} (hn : cs.length ≤ n) : readConjunction n (conjunctionTokens cs) = some cs := by
  have hand : "AND".toUpper = "AND" := by decide +kernel
  induction cs generalizing n with
  | nil => exact absurd rfl hne
  | cons c cs ih =>
    obtain ⟨n, rfl⟩ : ∃ m, n = m + 1 := ⟨n - 1, by simp only [List.length_cons] at hn; omega⟩
    obtain ⟨hc, hcs⟩ := List.forall_mem_cons.mp hcs
    cases cs with
    | nil =>
      have hread := readCondition_tokens hc []
      rw [List.append_nil] at hread
      rw [readConjunction, conjunctionTokens, hread]
    | cons c' cs =>
      have hrest := ih (List.cons_ne_nil _ _) hcs (Nat.le_of_succ_le_succ hn)
      rw [readConjunction, conjunctionTokens, readCondition_tokens hc]
      · simp only [hand, if_true, hrest, Option.map_some]
      · simp

theorem length_le_conjunctionTokens (cs : List Condition) : cs.length ≤ (conjunctionTokens cs).length := by
  have hpos : ∀ c : Condition, 1 ≤ c.tokens.length := by
    intro c
    cases c <;> simp [Condition.tokens]
  induction cs with
  | nil => exact Nat.le_refl _
  | cons c cs ih =>
    cases cs with
    | nil => exact hpos c
    | cons c' cs =>
      rw [conjunctionTokens]
      · simp only [List.length_cons, List.length_append] at ih ⊢
        omega
      · simp

/-- **A written conjunction says what it was written for.** -/
theorem readClause_render {cs : List Condition} (hne : cs ≠ []) (hcs : ∀ c ∈ cs, c.WellFormed) :
    readClause (String.ofList (renderConjunction cs)) = some cs := by
  have hlength := length_le_conjunctionTokens cs
  rw [readClause, String.toList_ofList, (Lexes.conjunction hcs).lex, Option.bind_some,
    readConjunction_tokens hne hcs (by omega)]

end Written

end Stel.Sql
