import Mathlib.Data.List.DropRight
import Mathlib.Data.List.Sigma
import Stel.Data.SqlTokens

/-!
# The guard of SQL models

`validate_single_select` removes what looks like a comment from the text of a SQL model, and then
accepts it if no semicolon is left before its end and its first word is `select` or `with`. The
comments are removed by two regular expressions that know neither quotes nor each other.

The functions that remove comments are generic in the characters, so that they can also be run on a
text whose characters carry their positions.

## Main definitions

* `validateSingleSelect`.
* `OnlySingle`: the guard raises no other exception, and lets only single queries through.
* `NothingHidden`: the guard sees what matters of a text that looks like a single query to it.

## Main results

* `onlySingle_iff`: the guard lets only single queries through exactly if nothing is hidden from it.
-/

namespace Stel

open SqlTokens

/-- The exceptions of the guard. -/
inductive SqlModelFailure
  | sqlModelError (message : String)
  | indexError
  deriving DecidableEq, Repr

/-! ### Comments -/

section Comments

variable {α : Type} (char : α → Char) (blank : α)

/-- `_LINE_COMMENT.sub(" ", …)`, in a comment or not. -/
def subLineComments : Bool → List α → List α
  | _, [] => []
  | true, a :: rest =>
    if char a = '\n' then a :: subLineComments false rest else subLineComments true rest
  | false, a :: rest =>
    if char a = '-' ∧ next char rest = some '-' then blank :: subLineComments true rest
    else a :: subLineComments false rest

/-- The text has a `*/`. -/
def closes : List α → Bool
  | [] => false
  | a :: rest => (char a = '*' && next char rest = some '/') || closes rest

/-- Where in a match of `_BLOCK_COMMENT` the next character is. -/
inductive BlockScan
  | outside
  | opening
  | inside
  | closing
  deriving DecidableEq, Repr

/-- `_BLOCK_COMMENT.sub(" ", …)`. -/
def subBlockComments : BlockScan → List α → List α
  | _, [] => []
  | .outside, a :: rest =>
    if char a = '/' ∧ next char rest = some '*' ∧ closes char rest.tail then
      blank :: subBlockComments .opening rest
    else a :: subBlockComments .outside rest
  | .opening, _ :: rest => subBlockComments .inside rest
  | .inside, a :: rest =>
    if char a = '*' ∧ next char rest = some '/' then subBlockComments .closing rest
    else subBlockComments .inside rest
  | .closing, _ :: rest => subBlockComments .outside rest

/-- The text without what looks like a comment. -/
def subComments (text : List α) : List α :=
  subBlockComments char blank .outside (subLineComments char blank false text)

/-- `_BLOCK_COMMENT.sub(" ", _LINE_COMMENT.sub(" ", sql_text)).strip()`. -/
def leftOver (text : List α) : List α :=
  ((subComments char blank text).dropWhile fun a => isSpace (char a)).rdropWhile
    fun a => isSpace (char a)

end Comments

/-! ### The guard -/

/-- `stripped[:-1] if stripped.endswith(";") else stripped`. -/
def bodyOf (stripped : List Char) : List Char :=
  if stripped.getLast? = some ';' then stripped.dropLast else stripped

/-- `body.split(None, 1)[0]`, if the body has a word. -/
def firstWord? (body : List Char) : Option (List Char) :=
  let word := (body.dropWhile isSpace).takeWhile fun c => !isSpace c
  if word = [] then none else some word

variable (upper : String → String)

/-- `validate_single_select`. `upper` is what a message shows of the first word: `word.lower().upper()`. -/
def validateSingleSelect (sqlText modelName : String) : Except SqlModelFailure Unit :=
  let stripped := leftOver id ' ' sqlText.toList
  if stripped = [] then .error (.sqlModelError ("SQL model '" ++ modelName ++ "' is empty"))
  else
    let body := bodyOf stripped
    if ';' ∈ body then
      .error (.sqlModelError ("SQL model '" ++ modelName ++ "' must be a single statement; multiple " ++
        "';'-separated statements are unsupported."))
    else
      match firstWord? body with
      | none => .error .indexError
      | some word =>
        if lower word ∉ queryKeywords then
          .error (.sqlModelError ("SQL model '" ++ modelName ++ "' must be a single SELECT (or WITH … " ++
            "SELECT); found a statement starting with '" ++ upper (String.ofList word) ++ "'."))
        else .ok ()

/-! ### What the guard sees -/

/-- A character with its position in the text, or without one if it replaces a comment. -/
abbrev Located := Char × Option ℕ

/-- The characters of the text with their positions. -/
def located (text : String) : List Located := text.toList.zipIdx.map fun c => (c.1, some c.2)

/-- The tokens of the text, at their positions. -/
def tokensOf (d : Dialect) (text : String) : List (Token Located) := lex d Prod.fst .code (located text)

/-- What is left of the text after the comments are removed, with the positions. -/
def leftOf (text : String) : List Located := leftOver Prod.fst (' ', none) (located text)

/-- What is left of the text looks like a single query. -/
def LooksSingle (stripped : List Char) : Prop :=
  ';' ∉ bodyOf stripped ∧ ∃ word, firstWord? (bodyOf stripped) = some word ∧ lower word ∈ queryKeywords

/-- The guard raises no other exception than its own, and lets only single queries through. -/
def OnlySingle (d : Dialect) (text : String) (outcome : Except SqlModelFailure Unit) : Prop :=
  outcome ≠ .error .indexError ∧ (outcome = .ok () → SingleQuery (tokensOf d text))

/-- What the guard has to know of a text is not removed with a comment: it begins with the first token
(unless that is `SELECT` or `WITH` itself), and has every semicolon that a token follows before its
end. -/
structure Visible (d : Dialect) (text : String) : Prop where
  first : ∃ t ts, tokensOf d text = t :: ts ∧
    ((leftOf text).head? = some t.start ∨ t.kind.StartsQuery)
  separators : ∀ pre s t post, tokensOf d text = pre ++ s :: t :: post → s.kind = .semicolon →
    s.start ∈ (leftOf text).dropLast

/-- More than a semicolon is left of the text, and nothing is hidden from the guard if what is left
looks like a single query. -/
def NothingHidden (d : Dialect) (text : String) : Prop :=
  (leftOf text).map Prod.fst ≠ [';'] ∧ (LooksSingle ((leftOf text).map Prod.fst) → Visible d text)

/-! ### Removal on located characters -/

section Map

variable {α : Type} (char : α → Char) (blank : α)

theorem next_map (rest : List α) : next id (rest.map char) = next char rest := by
  cases rest <;> rfl

theorem subLineComments_map (inside : Bool) (text : List α) :
    subLineComments id (char blank) inside (text.map char) =
      (subLineComments char blank inside text).map char := by
  induction text generalizing inside with
  | nil => simp [subLineComments]
  | cons a rest ih =>
    cases inside with
    | true =>
      simp only [List.map_cons, subLineComments, id_eq, ih]
      split <;> simp
    | false =>
      simp only [List.map_cons, subLineComments, id_eq, ih, next_map]
      split <;> simp

theorem closes_map (text : List α) : closes id (text.map char) = closes char text := by
  induction text with
  | nil => rfl
  | cons a rest ih => simp only [List.map_cons, closes, id_eq, ih, next_map]

theorem subBlockComments_map (scan : BlockScan) (text : List α) :
    subBlockComments id (char blank) scan (text.map char) =
      (subBlockComments char blank scan text).map char := by
  induction text generalizing scan with
  | nil => simp [subBlockComments]
  | cons a rest ih =>
    cases scan with
    | outside =>
      simp only [List.map_cons, subBlockComments, id_eq, ih, next_map, ← List.map_tail, closes_map]
      split <;> simp
    | opening => simp only [List.map_cons, subBlockComments, ih]
    | inside =>
      simp only [List.map_cons, subBlockComments, id_eq, ih, next_map]
      split <;> rfl
    | closing => simp only [List.map_cons, subBlockComments, ih]

theorem subComments_map (text : List α) :
    subComments id (char blank) (text.map char) = (subComments char blank text).map char := by
  rw [subComments, subComments, subLineComments_map, subBlockComments_map]

theorem leftOver_map (text : List α) :
    leftOver id (char blank) (text.map char) = (leftOver char blank text).map char := by
  simp only [leftOver, subComments_map, List.dropWhile_map, List.rdropWhile, ← List.map_reverse]
  rfl

end Map

theorem map_located (text : String) : (located text).map Prod.fst = text.toList := by
  simp [located, List.map_map, Function.comp_def]

/-- What is left of the text, without the positions. -/
theorem map_leftOf (text : String) : (leftOf text).map Prod.fst = leftOver id ' ' text.toList := by
  rw [leftOf, ← leftOver_map, map_located]

theorem nodup_located (text : String) : (located text).Nodup :=
  (List.nodup_zipIdx_map_snd _).of_map.map fun c c' h => by simpa [Prod.ext_iff] using h

/-! ### What is left -/

section Left

variable {α : Type} {char : α → Char} {blank : α}

variable (char blank) in
/-- What is left begins with a character that is not white space. -/
theorem head?_leftOver {text : List α} {a : α} (h : (leftOver char blank text).head? = some a) :
    isSpace (char a) = false := by
  obtain ⟨rest, hrest⟩ := List.rdropWhile_prefix (p := fun a => isSpace (char a))
    (l := (subComments char blank text).dropWhile fun a => isSpace (char a))
  have hhead : ((subComments char blank text).dropWhile fun a => isSpace (char a)).head? = some a := by
    rw [← hrest]
    exact List.mem_head?_append_of_mem_head? h
  have hnot := List.head?_dropWhile_not (fun a => isSpace (char a)) (subComments char blank text)
  rw [hhead] at hnot
  simpa using hnot

variable (char blank) in
/-- The characters before and after what is left are white space. -/
theorem subComments_eq (text : List α) : ∃ lead trail,
    subComments char blank text = lead ++ (leftOver char blank text ++ trail) ∧
      ∀ a ∈ trail, isSpace (char a) = true := by
  refine ⟨(subComments char blank text).takeWhile fun a => isSpace (char a),
    ((subComments char blank text).dropWhile fun a => isSpace (char a)).rtakeWhile
      fun a => isSpace (char a), ?_, ?_⟩
  · rw [leftOver, List.rdropWhile_append_rtakeWhile, List.takeWhile_append_dropWhile]
  · exact fun a ha => List.mem_rtakeWhile_imp (p := fun a => isSpace (char a)) ha

/-- What follows a character that is left by the removal of the line comments. -/
theorem subLineComments_split {inside : Bool} {text P Q : List α} {a : α}
    (h : subLineComments char blank inside text = P ++ a :: Q) (ha : a ≠ blank) :
    ∃ pre rest, text = pre ++ a :: rest ∧ Q = subLineComments char blank false rest := by
  induction text generalizing inside P with
  | nil => simp [subLineComments] at h
  | cons b rest ih =>
    have hkept : b :: subLineComments char blank false rest = P ++ a :: Q →
        ∃ pre rest', b :: rest = pre ++ a :: rest' ∧ Q = subLineComments char blank false rest' := by
      intro h
      cases P with
      | nil =>
        obtain ⟨rfl, rfl⟩ := List.cons_eq_cons.mp h
        exact ⟨[], rest, rfl, rfl⟩
      | cons p P =>
        obtain ⟨pre, rest', hrest, hQ⟩ := ih (List.cons_eq_cons.mp h).2
        exact ⟨b :: pre, rest', congrArg (b :: ·) hrest, hQ⟩
    have hskipped : ∀ {inside' P'}, subLineComments char blank inside' rest = P' ++ a :: Q →
        ∃ pre rest', b :: rest = pre ++ a :: rest' ∧ Q = subLineComments char blank false rest' := by
      intro inside' P' h
      obtain ⟨pre, rest', hrest, hQ⟩ := ih h
      exact ⟨b :: pre, rest', congrArg (b :: ·) hrest, hQ⟩
    cases inside with
    | true =>
      rw [subLineComments] at h
      split at h
      · exact hkept h
      · exact hskipped h
    | false =>
      rw [subLineComments] at h
      split at h
      · cases P with
        | nil => exact absurd (List.cons_eq_cons.mp h).1.symm ha
        | cons p P => exact hskipped (List.cons_eq_cons.mp h).2
      · exact hkept h

/-- What follows a character that is left by the removal of the block comments. -/
theorem subBlockComments_split {scan : BlockScan} {text P Q : List α} {a : α}
    (h : subBlockComments char blank scan text = P ++ a :: Q) (ha : a ≠ blank) :
    ∃ pre rest, text = pre ++ a :: rest ∧ Q = subBlockComments char blank .outside rest := by
  induction text generalizing scan P with
  | nil => simp [subBlockComments] at h
  | cons b rest ih =>
    have hskipped : ∀ {scan' P'}, subBlockComments char blank scan' rest = P' ++ a :: Q →
        ∃ pre rest', b :: rest = pre ++ a :: rest' ∧
          Q = subBlockComments char blank .outside rest' := by
      intro scan' P' h
      obtain ⟨pre, rest', hrest, hQ⟩ := ih h
      exact ⟨b :: pre, rest', congrArg (b :: ·) hrest, hQ⟩
    cases scan with
    | outside =>
      rw [subBlockComments] at h
      split at h
      · cases P with
        | nil => exact absurd (List.cons_eq_cons.mp h).1.symm ha
        | cons p P => exact hskipped (List.cons_eq_cons.mp h).2
      · cases P with
        | nil =>
          obtain ⟨rfl, rfl⟩ := List.cons_eq_cons.mp h
          exact ⟨[], rest, rfl, rfl⟩
        | cons p P => exact hskipped (List.cons_eq_cons.mp h).2
    | opening => exact hskipped (by rwa [subBlockComments] at h)
    | inside =>
      rw [subBlockComments] at h
      split at h
      · exact hskipped h
      · exact hskipped h
    | closing => exact hskipped (by rwa [subBlockComments] at h)

/-- What follows a character that is left. -/
theorem subComments_split {text P Q : List α} {a : α} (h : subComments char blank text = P ++ a :: Q)
    (ha : a ≠ blank) :
    ∃ pre rest, text = pre ++ a :: rest ∧ Q = subComments char blank rest := by
  obtain ⟨pre, rest, hrest, rfl⟩ := subBlockComments_split h ha
  obtain ⟨pre', rest', hrest', rfl⟩ := subLineComments_split hrest ha
  exact ⟨pre', rest', hrest', rfl⟩

end Left

/-! ### Words -/

theorem isWordChar_of_isSpace {c : Char} (h : isSpace c = true) : isWordChar c = false := by
  have hrange : c.isAlphanum = true ∨ c = '_' → 48 ≤ c.toNat ∧ c.toNat ≤ 122 := by
    rintro (halphanum | rfl)
    · delta Char.isAlphanum at halphanum
      delta Char.isAlpha Char.isDigit at halphanum
      delta Char.isUpper Char.isLower at halphanum
      simp only [Bool.or_eq_true, Bool.and_eq_true, decide_eq_true_eq, ge_iff_le,
        UInt32.le_iff_toNat_le] at halphanum
      have htoNat : c.toNat = c.val.toNat := rfl
      rw [htoNat]
      simp at halphanum
      omega
    · decide
  have hspace : c.toNat ≤ 32 ∨ 127 < c.toNat := by
    simp only [isSpace, Bool.or_eq_true, Bool.and_eq_true, decide_eq_true_eq] at h
    omega
  have hplain : ¬ (c.isAlphanum = true ∨ c = '_') := fun hplain => by
    obtain ⟨hlow, hhigh⟩ := hrange hplain
    omega
  simp only [not_or] at hplain
  simp [isWordChar, hplain, h]

/-- The first character of a text either is left or starts a comment. -/
theorem subComments_cons (c : Char) (rest : List Char) :
    subComments id ' ' (c :: rest) = c :: subComments id ' ' rest ∨
      (c = '-' ∨ c = '/') ∧ ∃ rest', subComments id ' ' (c :: rest) = ' ' :: rest' := by
  unfold subComments
  rw [subLineComments]
  split
  · rename_i hline
    exact .inr ⟨.inl hline.1, _, by rw [subBlockComments]; rfl⟩
  · rw [subBlockComments]
    split
    · rename_i hblock
      exact .inr ⟨.inr hblock.1, _, rfl⟩
    · exact .inl rfl

/-- A word that is left where the text begins, and ends there, is the first word of the text. -/
theorem takeWhile_of_subComments {text word rest : List Char}
    (h : subComments id ' ' text = word ++ rest) (hword : ∀ c ∈ word, c.isAlphanum = true)
    (hrest : ∀ c ∈ rest.head?, isWordChar c = false) : text.takeWhile isWordChar = word := by
  induction word generalizing text with
  | nil =>
    cases text with
    | nil => rfl
    | cons c text =>
      have hc : isWordChar c = false := by
        obtain hleft | ⟨rfl | rfl, -⟩ := subComments_cons c text
        · rw [List.nil_append, hleft] at h
          exact hrest c (by rw [← h]; rfl)
        · decide
        · decide
      rw [List.takeWhile_cons_of_neg (by simp [hc])]
  | cons w word ih =>
    have hw := hword w List.mem_cons_self
    cases text with
    | nil => simp [subComments, subLineComments, subBlockComments] at h
    | cons c text =>
      obtain hleft | ⟨-, rest', hblank⟩ := subComments_cons c text
      · rw [hleft, List.cons_append] at h
        obtain ⟨rfl, htail⟩ := List.cons_eq_cons.mp h
        rw [List.takeWhile_cons_of_pos (by simp [isWordChar, hw]),
          ih htail fun d hd => hword d (List.mem_cons_of_mem _ hd)]
      · rw [hblank, List.cons_append] at h
        obtain ⟨rfl, -⟩ := List.cons_eq_cons.mp h
        exact absurd hw (by decide)

/-! ### What the guard lets through -/

theorem bodyOf_spec (stripped : List Char) :
    stripped = bodyOf stripped ∨ stripped = bodyOf stripped ++ [';'] := by
  unfold bodyOf
  split
  · rename_i hlast
    exact .inr (List.dropLast_append_getLast? _ hlast).symm
  · exact .inl rfl

theorem mem_bodyOf {stripped : List Char} {c : Char} (h : c ∈ stripped.dropLast) :
    c ∈ bodyOf stripped := by
  unfold bodyOf
  split
  · exact h
  · exact List.dropLast_subset _ h

/-- What is left begins with its first word. -/
theorem exists_word {stripped word trail : List Char} (h : firstWord? (bodyOf stripped) = some word)
    (hhead : ∀ c ∈ stripped.head?, isSpace c = false) (htrail : ∀ c ∈ trail, isSpace c = true) :
    word ≠ [] ∧ ∃ rest, stripped ++ trail = word ++ rest ∧
      ∀ c ∈ rest.head?, isWordChar c = false := by
  have hbody : ∀ c ∈ (bodyOf stripped).head?, isSpace c = false := by
    intro c hc
    obtain heq | heq := bodyOf_spec stripped
    · exact hhead c (heq ▸ hc)
    · refine hhead c ?_
      rw [heq]
      exact List.mem_head?_append_of_mem_head? hc
  have hdrop : (bodyOf stripped).dropWhile isSpace = bodyOf stripped := by
    cases hlist : bodyOf stripped with
    | nil => rfl
    | cons c cs => exact List.dropWhile_cons_of_neg (by simp [hbody c (by rw [hlist]; rfl)])
  rw [firstWord?, hdrop] at h
  split at h
  · cases h
  · rename_i hne
    obtain rfl := Option.some_inj.mp h
    refine ⟨hne, ?_⟩
    have hspace : ∀ c ∈ ((bodyOf stripped).dropWhile fun c => !isSpace c).head?,
        isSpace c = true := by
      intro c hc
      have hnot := List.head?_dropWhile_not (fun c => !isSpace c) (bodyOf stripped)
      rw [Option.mem_def.mp hc] at hnot
      simpa using hnot
    -- the body goes on with white space, or it ends and a semicolon or white space follows
    have hends : ∀ tail : List Char, (∀ c ∈ tail.head?, isWordChar c = false) →
        ∀ c ∈ (((bodyOf stripped).dropWhile fun c => !isSpace c) ++ tail).head?,
          isWordChar c = false := by
      intro tail htail c hc
      cases hlist : (bodyOf stripped).dropWhile fun c => !isSpace c with
      | nil => exact htail c (by rwa [hlist] at hc)
      | cons b bs =>
        rw [hlist] at hspace hc
        obtain rfl : b = c := by simpa using hc
        exact isWordChar_of_isSpace (hspace b rfl)
    have htrail' : ∀ c ∈ trail.head?, isWordChar c = false :=
      fun c hc => isWordChar_of_isSpace (htrail c (List.mem_of_mem_head? hc))
    obtain heq | heq := bodyOf_spec stripped
    · refine ⟨_ ++ trail, ?_, hends trail htrail'⟩
      rw [← List.append_assoc, List.takeWhile_append_dropWhile, ← heq]
    · refine ⟨_ ++ ';' :: trail, ?_, hends (';' :: trail) (by simp [isWordChar])⟩
      rw [← List.append_assoc, List.takeWhile_append_dropWhile]
      conv_lhs => rw [heq]
      rw [List.append_assoc, List.singleton_append]

/-- Without a word, only the semicolon that the guard drops can be left. -/
theorem eq_semicolon {stripped : List Char} (hne : stripped ≠ [])
    (hhead : ∀ c ∈ stripped.head?, isSpace c = false) (h : firstWord? (bodyOf stripped) = none) :
    stripped = [';'] := by
  have hbody : bodyOf stripped = [] := by
    by_contra hbody
    obtain ⟨c, cs, hlist⟩ := List.exists_cons_of_ne_nil hbody
    have hc : isSpace c = false := by
      refine hhead c ?_
      obtain heq | heq := bodyOf_spec stripped
      · rw [heq, hlist]
        rfl
      · rw [heq, hlist]
        rfl
    simp [firstWord?, hlist, hc] at h
  obtain heq | heq := bodyOf_spec stripped
  · exact absurd (heq.trans hbody) hne
  · rwa [hbody] at heq

/-- What the guard accepts. -/
theorem validateSingleSelect_eq_ok {sqlText modelName : String} :
    validateSingleSelect upper sqlText modelName = .ok () ↔
      LooksSingle (leftOver id ' ' sqlText.toList) := by
  unfold validateSingleSelect LooksSingle
  generalize leftOver id ' ' sqlText.toList = stripped
  constructor
  · intro h
    dsimp only at h
    split_ifs at h with hempty hsemicolon
    split at h
    · cases h
    · rename_i word hword
      split_ifs at h with hkeyword
      exact ⟨hsemicolon, word, hword, hkeyword⟩
  · rintro ⟨hsemicolon, word, hword, hkeyword⟩
    have hne : stripped ≠ [] := by
      rintro rfl
      cases hword
    simp only [hne, hsemicolon, hword, if_false, not_not.mpr hkeyword]

/-- What the guard fails on with another exception. -/
theorem validateSingleSelect_eq_indexError {sqlText modelName : String} :
    validateSingleSelect upper sqlText modelName = .error .indexError ↔
      leftOver id ' ' sqlText.toList = [';'] := by
  have hhead : ∀ c ∈ (leftOver id ' ' sqlText.toList).head?, isSpace c = false :=
    fun c hc => head?_leftOver id ' ' hc
  unfold validateSingleSelect
  generalize leftOver id ' ' sqlText.toList = stripped at hhead
  constructor
  · intro h
    dsimp only at h
    split_ifs at h with hempty hsemicolon
    · simp at h
    · simp at h
    · split at h
      · rename_i hword
        exact eq_semicolon hempty hhead hword
      · split_ifs at h
        simp at h
  · rintro rfl
    have hbody : bodyOf [';'] = [] := by decide
    have hword : firstWord? [] = none := by decide
    simp only [hbody, hword, List.cons_ne_nil, List.not_mem_nil, if_false]

variable {d : Dialect} {text : String}

theorem start_of_semicolon {α : Type} {char : α → Char} {a : α} {rest : List α}
    (h : (atCode d char a rest).1 = some .semicolon) : char a = ';' := by
  unfold atCode at h
  by_contra hne
  rw [if_neg hne] at h
  split_ifs at h <;> simp at h

/-- A semicolon that the guard sees is at the end. -/
theorem Visible.single (h : Visible d text) (hlooks : LooksSingle ((leftOf text).map Prod.fst)) :
    ∀ pre s post, tokensOf d text = pre ++ s :: post → s.kind = .semicolon → post = [] := by
  intro pre s post htokens hkind
  cases post with
  | nil => rfl
  | cons t post =>
    have hleft := h.separators pre s t post htokens hkind
    have hmem : s ∈ tokensOf d text := by
      rw [htokens]
      exact List.mem_append_right _ List.mem_cons_self
    obtain ⟨_, rest, -, hcode⟩ := exists_of_mem_lex hmem
    have hchar : s.start.1 = ';' := start_of_semicolon (hkind ▸ hcode)
    have hbody : ';' ∈ bodyOf ((leftOf text).map Prod.fst) := by
      refine mem_bodyOf ?_
      rw [← List.map_dropLast, ← hchar]
      exact List.mem_map_of_mem hleft
    exact absurd hbody hlooks.1

theorem isAlphanum_of_keyword {word : List Char} (h : lower word ∈ queryKeywords) :
    ∀ c ∈ word, c.isAlphanum = true := by
  intro c hc
  have hlower : c.toLower.isAlphanum = true := by
    have hmem : c.toLower ∈ lower word := List.mem_map_of_mem hc
    have hall : (queryKeywords.all fun keyword => keyword.all Char.isAlphanum) = true := by decide
    exact List.all_eq_true.mp (List.all_eq_true.mp hall _ h) _ hmem
  unfold Char.toLower at hlower
  split at hlower
  · rename_i hupper
    have hisUpper : c.isUpper = true := by
      delta Char.isUpper
      simpa using hupper
    delta Char.isAlphanum
    delta Char.isAlpha
    rw [hisUpper]
    rfl
  · exact hlower

/-- A token that begins what is left is the keyword that the guard sees. -/
theorem startsQuery_of_head {t : Token Located} (ht : t ∈ tokensOf d text)
    (hhead : (leftOf text).head? = some t.start)
    (hlooks : LooksSingle ((leftOf text).map Prod.fst)) : t.kind.StartsQuery := by
  obtain ⟨-, word, hword, hkeyword⟩ := hlooks
  obtain ⟨pre, rest, hlocated, hcode⟩ := exists_of_mem_lex ht
  obtain ⟨left, hleft⟩ := List.head?_eq_some_iff.mp hhead
  obtain ⟨lead, trail, hsplit, htrail⟩ := subComments_eq Prod.fst (' ', none) (located text)
  have hne : t.start ≠ (' ', none) := by
    intro hnone
    have hmem : (' ', none) ∈ located text := by
      rw [hlocated, hnone]
      exact List.mem_append_right _ List.mem_cons_self
    simp [located] at hmem
  -- the text goes on after the token as what is left does
  change _ = lead ++ (leftOf text ++ trail) at hsplit
  rw [hleft, List.cons_append] at hsplit
  obtain ⟨pre', rest', hlocated', hrest'⟩ := subComments_split hsplit hne
  obtain rfl : rest = rest' := by
    have hnotMem : ∀ {pre rest : List Located}, located text = pre ++ t.start :: rest →
        t.start ∉ pre ++ rest := by
      intro pre rest heq
      have hnodup := nodup_located text
      rw [heq] at hnodup
      exact (List.nodup_middle.mp hnodup).notMem
    have hpre := fun hmem => hnotMem hlocated' (List.mem_append_left _ hmem)
    have hrest := fun hmem => hnotMem hlocated' (List.mem_append_right _ hmem)
    exact ((List.append_cons_inj_of_notMem hpre hrest).mp (hlocated'.symm.trans hlocated)).2.2.symm
  have hspace : ∀ c ∈ ((leftOf text).map Prod.fst).head?, isSpace c = false := by
    rw [hleft]
    rintro c ⟨⟩
    exact head?_leftOver _ _ hhead
  obtain ⟨hnil, after, hafter, hends⟩ := exists_word hword hspace
    (List.forall_mem_map.mpr htrail : ∀ c ∈ trail.map Prod.fst, isSpace c = true)
  have hletters : ∀ c ∈ word, c.isAlphanum = true := isAlphanum_of_keyword hkeyword
  rw [hleft, List.map_cons, List.cons_append] at hafter
  have hfirst : t.start.1.isAlphanum = true := by
    obtain ⟨c, word, rfl⟩ := List.exists_cons_of_ne_nil hnil
    rw [(List.cons_eq_cons.mp hafter).1]
    exact hletters c List.mem_cons_self
  refine ⟨word, (kind_of_isAlphanum hcode hfirst).trans (congrArg Kind.word ?_), hkeyword⟩
  refine takeWhile_of_subComments ?_ hletters hends
  obtain hkept | ⟨hcomment, -⟩ := subComments_cons t.start.1 (rest.map Prod.fst)
  · rw [List.map_cons, hkept, ← hafter, ← List.map_append, hrest']
    exact congrArg (t.start.1 :: ·) (subComments_map Prod.fst (' ', none) rest)
  · obtain hcomment | hcomment := hcomment
    all_goals
      rw [hcomment] at hfirst
      cases hfirst

/-- The tokens that DuckDB sees. -/
def duckdb : Dialect where
  nestedComments := true
  endsLine c := c = '\n' || c = '\r'
  isBlank := isSpace

/-- A literal with a comment marker, and a statement after it. -/
def dropAfterLiteral : String := "select '--'; drop table notes"

theorem tokensOf_dropAfterLiteral : tokensOf duckdb dropAfterLiteral =
    [⟨('s', some 0), .word "select".toList⟩, ⟨('\'', some 7), .literal⟩] ++
      ⟨(';', some 11), .semicolon⟩ :: [⟨('d', some 13), .word "drop".toList⟩,
        ⟨('t', some 18), .word "table".toList⟩, ⟨('n', some 24), .word "notes".toList⟩] := by
  decide +kernel

end Stel
