import Stel.Data.JsonValue
import Mathlib.Tactic.IntervalCases

/-!
# Reading JSON objects

`json.loads` on the texts of objects whose members are strings, integers and arrays of these, as
`json.dumps` writes them.

## Main definitions

* `JsonValue.IsPlain`: the values of the members.
* `JsonValue.readObject`: the object of a text.

## Main results

* `JsonValue.readItems_commaSep`: items between commas are read back if each of them is.
* `JsonValue.readObject_dumpsAscii`: an object is read back with its members in the order of their names.
-/

namespace Stel.JsonValue

/-! ### Items between commas -/

section Items

variable {α β : Type}

/-- Items with commas between them, up to a closing character. -/
def readItems (read : List Char → Option (α × List Char)) (close : Char) :
    ℕ → List Char → Option (List α × List Char)
  | 0, _ => none
  | fuel + 1, text => do
    let (item, rest) ← read text
    match rest with
    | [] => none
    | c :: rest =>
      if c = close then return ([item], rest)
      else if c = ',' then do
        let (items, rest) ← readItems read close fuel rest
        return (item :: items, rest)
      else none

theorem readItems_commaSep {read : List Char → Option (α × List Char)} {close : Char}
    {write : β → List Char} {f : β → α} (hclose : close ≠ ',') {items : List β}
    (hread : ∀ item ∈ items, ∀ c rest, c = ',' ∨ c = close →
      read (write item ++ c :: rest) = some (f item, c :: rest))
    {fuel : ℕ} (hfuel : items.length ≤ fuel) (hne : items ≠ []) (rest : List Char) :
    readItems read close fuel (commaSep (items.map write) ++ close :: rest) =
      some (items.map f, rest) := by
  induction items generalizing fuel with
  | nil => exact absurd rfl hne
  | cons item items ih =>
    obtain ⟨fuel, rfl⟩ : ∃ n, fuel = n + 1 := by
      cases fuel with
      | zero => simp at hfuel
      | succ n => exact ⟨n, rfl⟩
    cases items with
    | nil =>
      simp only [List.map_cons, List.map_nil, commaSep, readItems,
        hread item List.mem_cons_self close rest (.inr rfl), Option.bind_eq_bind, Option.bind_some,
        if_true]
      rfl
    | cons next items =>
      have hlength : (next :: items).length ≤ fuel := by simpa using hfuel
      have hrest := ih (fun i hi => hread i (List.mem_cons_of_mem _ hi)) hlength (by simp)
      simp only [List.map_cons] at hrest
      simp only [List.map_cons, commaSep, List.append_assoc, List.cons_append, readItems,
        hread item List.mem_cons_self ',' _ (.inl rfl), Option.bind_eq_bind, Option.bind_some,
        if_neg hclose.symm, if_true, hrest]
      rfl

end Items

/-! ### Strings -/

/-- The number of four hexadecimal digits. -/
def readCode (a b c d : Char) : ℕ :=
  Json.hexValue a * 4096 + Json.hexValue b * 256 + Json.hexValue c * 16 + Json.hexValue d

theorem readCode_hexDigit {n : ℕ} (hn : n < 65536) :
    readCode (Json.hexDigit (n / 4096)) (Json.hexDigit (n / 256 % 16)) (Json.hexDigit (n / 16 % 16))
      (Json.hexDigit (n % 16)) = n := by
  rw [readCode, Json.hexValue_hexDigit _ (by omega), Json.hexValue_hexDigit _ (by omega),
    Json.hexValue_hexDigit _ (by omega), Json.hexValue_hexDigit _ (by omega)]
  omega

/-- The character whose escape starts a text. -/
def unescapeAscii : List Char → Option (Char × List Char)
  | '\\' :: 'u' :: a :: b :: c :: d :: rest =>
    let n := readCode a b c d
    if 55296 ≤ n ∧ n < 56320 then
      match rest with
      | '\\' :: 'u' :: e :: f :: g :: h :: rest =>
        some (Char.ofNat (65536 + (n - 55296) * 1024 + (readCode e f g h - 56320)), rest)
      | _ => none
    else some (Char.ofNat n, rest)
  | text => Json.unescape text

theorem unescapeAscii_escapeCode {n : ℕ} (hn : n < 65536) (hsurrogate : n < 55296 ∨ 56320 ≤ n)
    (rest : List Char) : unescapeAscii (escapeCode n ++ rest) = some (Char.ofNat n, rest) := by
  simp only [escapeCode, List.cons_append, List.nil_append, unescapeAscii, readCode_hexDigit hn]
  rw [if_neg (by omega)]

theorem unescapeAscii_pair {n : ℕ} (hn : n < 1048576) (rest : List Char) :
    unescapeAscii (escapeCode (55296 + n / 1024) ++ (escapeCode (56320 + n % 1024) ++ rest)) =
      some (Char.ofNat (65536 + n), rest) := by
  simp only [escapeCode, List.cons_append, List.nil_append, unescapeAscii,
    readCode_hexDigit (n := 55296 + n / 1024) (by omega),
    readCode_hexDigit (n := 56320 + n % 1024) (by omega)]
  rw [if_pos (by omega)]
  have hcode : 65536 + (55296 + n / 1024 - 55296) * 1024 + (56320 + n % 1024 - 56320) = 65536 + n := by
    omega
  rw [hcode]

/-- A control character is escaped by its code. -/
theorem escape_eq_escapeCode {c : Char} (hc : c.toNat < 32)
    (hne : c ≠ '\n' ∧ c ≠ '\r' ∧ c ≠ '\t' ∧ c ≠ '\x0c' ∧ c ≠ '\x08') :
    Json.escape c = escapeCode c.toNat := by
  have hquote : c ≠ '"' := by
    rintro rfl
    exact absurd hc (by decide)
  have hslash : c ≠ '\\' := by
    rintro rfl
    exact absurd hc (by decide)
  have hhigh : c.toNat / 16 % 16 = c.toNat / 16 := by omega
  have hzero : c.toNat / 4096 = 0 ∧ c.toNat / 256 % 16 = 0 := by omega
  simp only [Json.escape, if_neg hquote, if_neg hslash, if_neg hne.1, if_neg hne.2.1, if_neg hne.2.2.1,
    if_neg hne.2.2.2.1, if_neg hne.2.2.2.2, if_pos hc, escapeCode, hhigh, hzero.1, hzero.2]
  rfl

theorem unescapeAscii_eq {text : List Char} (h : ∀ rest, text ≠ '\\' :: 'u' :: rest) :
    unescapeAscii text = Json.unescape text := by
  unfold unescapeAscii
  split
  · exact absurd rfl (h _)
  · rfl

/-- Other escapes do not hold a code. -/
theorem escape_ne_code {c : Char}
    (h : ¬ (c.toNat < 32 ∧ c ≠ '\n' ∧ c ≠ '\r' ∧ c ≠ '\t' ∧ c ≠ '\x0c' ∧ c ≠ '\x08'))
    (text rest : List Char) : Json.escape c ++ text ≠ '\\' :: 'u' :: rest := by
  unfold Json.escape
  repeat' split
  all_goals simp_all

theorem unescapeAscii_escapeAscii (c : Char) (rest : List Char) :
    unescapeAscii (escapeAscii c ++ rest) = some (c, rest) := by
  have hvalid : c.toNat < 55296 ∨ 57343 < c.toNat ∧ c.toNat < 1114112 := c.valid
  unfold escapeAscii
  split_ifs with hascii hbasic
  · by_cases hcode : c.toNat < 32 ∧ c ≠ '\n' ∧ c ≠ '\r' ∧ c ≠ '\t' ∧ c ≠ '\x0c' ∧ c ≠ '\x08'
    · rw [escape_eq_escapeCode hcode.1 hcode.2, unescapeAscii_escapeCode (by omega) (by omega),
        Char.ofNat_toNat]
    · rw [unescapeAscii_eq (escape_ne_code hcode rest), Json.unescape_escape]
  · rw [unescapeAscii_escapeCode hbasic (by omega), Char.ofNat_toNat]
  · have hpair := unescapeAscii_pair (n := c.toNat - 65536) (by omega) rest
    rw [← List.append_assoc, show 65536 + (c.toNat - 65536) = c.toNat by omega, Char.ofNat_toNat]
      at hpair
    exact hpair

/-- The characters of a string up to its closing quotation mark. -/
def readChars : ℕ → List Char → Option (List Char × List Char)
  | 0, _ => none
  | _ + 1, '"' :: rest => some ([], rest)
  | fuel + 1, text => do
    let (c, rest) ← unescapeAscii text
    let (chars, rest) ← readChars fuel rest
    return (c :: chars, rest)

theorem escapeAscii_ne_quote (c : Char) (x y : List Char) : escapeAscii c ++ x ≠ '"' :: y := by
  unfold escapeAscii
  split_ifs
  · exact Json.escape_ne_quote c x y
  · simp [escapeCode]
  · simp [escapeCode]

theorem readChars_flatMap (chars : List Char) {fuel : ℕ} (hfuel : chars.length < fuel)
    (rest : List Char) :
    readChars fuel (chars.flatMap escapeAscii ++ '"' :: rest) = some (chars, rest) := by
  induction chars generalizing fuel with
  | nil =>
    cases fuel with
    | zero => simp at hfuel
    | succ fuel => rfl
  | cons c chars ih =>
    cases fuel with
    | zero => simp at hfuel
    | succ fuel =>
      have hne := escapeAscii_ne_quote c (chars.flatMap escapeAscii ++ '"' :: rest)
      rw [List.flatMap_cons, List.append_assoc]
      have hstep : readChars (fuel + 1)
          (escapeAscii c ++ (chars.flatMap escapeAscii ++ '"' :: rest)) =
          (unescapeAscii (escapeAscii c ++ (chars.flatMap escapeAscii ++ '"' :: rest))).bind
            fun read => (readChars fuel read.2).bind fun more => some (read.1 :: more.1, more.2) := by
        rw [readChars.eq_def]
        split
        · rename_i heq
          exact absurd heq (by simp)
        · rename_i heq
          exact absurd heq (hne _)
        · rename_i heq _
          cases heq
          rfl
      rw [hstep, unescapeAscii_escapeAscii, Option.bind_some, ih (by simpa using hfuel)]
      rfl

/-- A quoted string. -/
def readString : List Char → Option (String × List Char)
  | '"' :: rest => (readChars (rest.length + 1) rest).map fun read => (String.ofList read.1, read.2)
  | _ => none

theorem length_le_flatMap (chars : List Char) :
    chars.length ≤ (chars.flatMap escapeAscii).length := by
  induction chars with
  | nil => simp
  | cons c chars ih =>
    have hpos : 0 < (escapeAscii c).length := by
      unfold escapeAscii Json.escape
      repeat' split
      all_goals simp [escapeCode]
    rw [List.flatMap_cons, List.length_append, List.length_cons]
    omega

theorem readString_quoteWith (s : String) (rest : List Char) :
    readString (quoteWith escapeAscii s ++ rest) = some (s, rest) := by
  have hlength := length_le_flatMap s.toList
  simp only [quoteWith, List.cons_append, List.append_assoc, List.nil_append, readString]
  rw [readChars_flatMap s.toList (by simp only [List.length_append]; omega)]
  simp

/-! ### Integers -/

/-- The digits of a number. -/
def readDigits (text : List Char) : Option (ℕ × List Char) :=
  let digits := text.takeWhile Char.isDigit
  if digits = [] then none else some (Nat.ofDigitChars 10 digits 0, text.dropWhile Char.isDigit)

/-- An integer. -/
def readInt : List Char → Option (ℤ × List Char)
  | '-' :: rest => (readDigits rest).map fun read => (-(read.1 : ℤ), read.2)
  | text => (readDigits text).map fun read => ((read.1 : ℤ), read.2)

theorem readDigits_toDigits (n : ℕ) {c : Char} (hc : c.isDigit = false) (rest : List Char) :
    readDigits (Nat.toDigits 10 n ++ c :: rest) = some (n, c :: rest) := by
  have hall : ∀ d ∈ Nat.toDigits 10 n, d.isDigit = true := fun d hd =>
    Nat.isDigit_of_mem_toDigits (by decide) (by decide) hd
  have htake : (Nat.toDigits 10 n ++ c :: rest).takeWhile Char.isDigit = Nat.toDigits 10 n := by
    rw [List.takeWhile_append_of_pos hall, List.takeWhile_cons_of_neg (by simp [hc]), List.append_nil]
  have hdrop : (Nat.toDigits 10 n ++ c :: rest).dropWhile Char.isDigit = c :: rest := by
    rw [List.dropWhile_append_of_pos hall, List.dropWhile_cons_of_neg (by simp [hc])]
  have hne : Nat.toDigits 10 n ≠ [] := Nat.toDigits_ne_nil
  simp only [readDigits, htake, hdrop, if_neg hne, Nat.ofDigitChars_ten_toDigits]

theorem readInt_eq {text : List Char} (h : ∀ rest, text ≠ '-' :: rest) :
    readInt text = (readDigits text).map fun read => ((read.1 : ℤ), read.2) := by
  unfold readInt
  split
  · exact absurd rfl (h _)
  · rfl

theorem exists_toDigits_cons (n : ℕ) :
    ∃ d digits, Nat.toDigits 10 n = d :: digits ∧ d.isDigit = true := by
  obtain ⟨d, digits, hdigits⟩ := List.exists_cons_of_ne_nil (Nat.toDigits_ne_nil (n := n) (b := 10))
  exact ⟨d, digits, hdigits,
    Nat.isDigit_of_mem_toDigits (by decide) (by decide) (hdigits ▸ List.mem_cons_self)⟩

theorem toList_toString_ofNat (n : ℕ) : (toString (Int.ofNat n)).toList = Nat.toDigits 10 n := by
  change (Nat.repr n).toList = _
  simp [Nat.repr]

theorem toList_toString_negSucc (n : ℕ) :
    (toString (Int.negSucc n)).toList = '-' :: Nat.toDigits 10 (n + 1) := by
  change ("-" ++ Nat.repr (n + 1)).toList = _
  simp [Nat.repr]

theorem readInt_toString (n : ℤ) {c : Char} (hc : c.isDigit = false) (rest : List Char) :
    readInt ((toString n).toList ++ c :: rest) = some (n, c :: rest) := by
  cases n with
  | ofNat n =>
    have hne : ∀ more, Nat.toDigits 10 n ++ c :: rest ≠ '-' :: more := by
      intro more h
      obtain ⟨d, digits, hdigits, hd⟩ := exists_toDigits_cons n
      rw [hdigits, List.cons_append] at h
      rw [(List.cons.inj h).1] at hd
      exact absurd hd (by decide)
    rw [toList_toString_ofNat, readInt_eq hne, readDigits_toDigits n hc]
    rfl
  | negSucc n =>
    rw [toList_toString_negSucc, List.cons_append, readInt, readDigits_toDigits (n + 1) hc]
    rfl

/-! ### Members of an object -/

/-- A string or an integer. -/
def IsScalar : JsonValue → Prop
  | .string _ | .int _ => True
  | _ => False

/-- A string, an integer or an array of these. -/
def IsPlain : JsonValue → Prop
  | .string _ | .int _ => True
  | .array items => ∀ item ∈ items, item.IsScalar
  | _ => False

/-- The characters that follow a value in a text. -/
def IsEnd (c : Char) : Prop := c = ',' ∨ c = ']' ∨ c = '}'

/-- A string or an integer. -/
def readScalar : List Char → Option (JsonValue × List Char)
  | '"' :: rest => (readString ('"' :: rest)).map fun read => (.string read.1, read.2)
  | text => (readInt text).map fun read => (.int read.1, read.2)

/-- A string, an integer or an array of these. -/
def readPlain : List Char → Option (JsonValue × List Char)
  | '[' :: ']' :: rest => some (.array [], rest)
  | '[' :: rest =>
    (readItems readScalar ']' rest.length rest).map fun read => (.array read.1, read.2)
  | text => readScalar text

/-- A member of an object. -/
def readMember (text : List Char) : Option ((String × JsonValue) × List Char) := do
  let (name, rest) ← readString text
  match rest with
  | ':' :: rest => (readPlain rest).map fun read => ((name, read.1), read.2)
  | _ => none

/-- An object of strings, integers and arrays of these. -/
def readObject (text : String) : Option JsonValue :=
  match text.toList with
  | ['{', '}'] => some (.object [])
  | '{' :: rest =>
    match readItems readMember '}' rest.length rest with
    | some (members, []) => some (.object members)
    | _ => none
  | _ => none

theorem isDigit_of_isEnd {c : Char} (h : IsEnd c) : c.isDigit = false := by
  obtain rfl | rfl | rfl := h <;> decide

theorem exists_toString_cons (n : ℤ) :
    ∃ d more, (toString n).toList = d :: more ∧ (d.isDigit = true ∨ d = '-') := by
  cases n with
  | ofNat n =>
    obtain ⟨d, digits, hdigits, hd⟩ := exists_toDigits_cons n
    exact ⟨d, digits, (toList_toString_ofNat n).trans hdigits, .inl hd⟩
  | negSucc n => exact ⟨'-', _, toList_toString_negSucc n, .inr rfl⟩

/-- The text of a string or an integer does not start with a bracket. -/
theorem exists_encode_cons {value : JsonValue} (h : value.IsScalar) :
    ∃ d more, encode escapeAscii value = d :: more ∧ d ≠ '[' ∧ d ≠ ']' := by
  cases value with
  | string s => exact ⟨'"', _, rfl, by decide, by decide⟩
  | int n =>
    obtain ⟨d, more, htext, hd⟩ := exists_toString_cons n
    refine ⟨d, more, htext, ?_, ?_⟩ <;>
    · rintro rfl
      exact absurd hd (by decide)
  | _ => exact h.elim

theorem readScalar_encode {value : JsonValue} (h : value.IsScalar) {c : Char} (hc : IsEnd c)
    (rest : List Char) :
    readScalar (encode escapeAscii value ++ c :: rest) = some (value, c :: rest) := by
  cases value with
  | string s =>
    have hread := readString_quoteWith s (c :: rest)
    simp only [quoteWith, List.cons_append] at hread
    simp only [encode, quoteWith, List.cons_append, readScalar, hread, Option.map_some]
  | int n =>
    have hread := readInt_toString n (isDigit_of_isEnd hc) rest
    obtain ⟨d, more, htext, hd⟩ := exists_toString_cons n
    rw [encode, readScalar.eq_def]
    split
    · rename_i heq
      rw [htext, List.cons_append] at heq
      rw [(List.cons.inj heq).1] at hd
      exact absurd hd (by decide)
    · rw [hread]
      rfl
  | _ => exact h.elim

theorem encodeItems_eq_map (items : List JsonValue) :
    encodeItems escapeAscii items = items.map (encode escapeAscii) := by
  induction items with
  | nil => rfl
  | cons item items ih => rw [encodeItems, ih, List.map_cons]

theorem encodeMembers_eq_map (members : List (String × JsonValue)) :
    encodeMembers escapeAscii members =
      members.map fun member => (member.1, encode escapeAscii member.2) := by
  induction members with
  | nil => rfl
  | cons member members ih => rw [encodeMembers, ih, List.map_cons]

/-- An enumeration has at least as many characters as texts, if none of them is empty. -/
theorem length_le_commaSep_map {α : Type} {f : α → List Char} {xs : List α}
    (h : ∀ x ∈ xs, ∃ d more, f x = d :: more) (rest : List Char) :
    xs.length ≤ (commaSep (xs.map f) ++ rest).length := by
  induction xs with
  | nil => simp
  | cons x xs ih =>
    obtain ⟨d, more, hx⟩ := h x List.mem_cons_self
    cases xs with
    | nil => simp [commaSep, hx]
    | cons y xs =>
      have hrest := ih fun z hz => h z (List.mem_cons_of_mem _ hz)
      simp only [List.map_cons, commaSep, hx, List.length_append, List.length_cons] at hrest ⊢
      omega

/-- An enumeration starts like its first text. -/
theorem exists_commaSep_map_cons {α : Type} {f : α → List Char} {x : α} {d : Char} {more : List Char}
    (h : f x = d :: more) (xs : List α) : ∃ more', commaSep ((x :: xs).map f) = d :: more' := by
  cases xs with
  | nil => exact ⟨more, h⟩
  | cons y xs => exact ⟨_, by rw [List.map_cons, List.map_cons, commaSep, h]; rfl⟩

theorem readPlain_encode {value : JsonValue} (h : value.IsPlain) {c : Char} (hc : IsEnd c)
    (rest : List Char) :
    readPlain (encode escapeAscii value ++ c :: rest) = some (value, c :: rest) := by
  have hscalar (hvalue : value.IsScalar) :
      readPlain (encode escapeAscii value ++ c :: rest) = some (value, c :: rest) := by
    obtain ⟨d, more, htext, hopen, -⟩ := exists_encode_cons hvalue
    have hread := readScalar_encode hvalue hc rest
    rw [htext, List.cons_append] at hread ⊢
    rw [readPlain.eq_def]
    split
    · rename_i heq
      exact absurd (List.cons.inj heq).1 hopen
    · rename_i heq
      exact absurd (List.cons.inj heq).1 hopen
    · exact hread
  cases value with
  | string s => exact hscalar trivial
  | int n => exact hscalar trivial
  | array items =>
    rw [encode, encodeItems_eq_map, List.cons_append, List.append_assoc, List.singleton_append]
    cases items with
    | nil => rfl
    | cons item items =>
      have hitems : ∀ i ∈ item :: items, ∀ d more, d = ',' ∨ d = ']' →
          readScalar (encode escapeAscii i ++ d :: more) = some (id i, d :: more) :=
        fun i hi d more hd =>
          readScalar_encode (h i hi) (hd.elim .inl fun hd => .inr (.inl hd)) more
      have hfuel := length_le_commaSep_map (f := encode escapeAscii) (fun i (hi : i ∈ item :: items) =>
        (exists_encode_cons (h i hi)).imp fun _ ⟨more, htext, _⟩ => ⟨more, htext⟩) (']' :: c :: rest)
      have hread := readItems_commaSep (by decide) hitems hfuel (by simp) (c :: rest)
      obtain ⟨d, more, htext, -, hclose⟩ := exists_encode_cons (h item List.mem_cons_self)
      obtain ⟨more', hmore⟩ := exists_commaSep_map_cons htext items
      rw [hmore, List.cons_append] at hread ⊢
      rw [readPlain.eq_def]
      split
      · rename_i heq
        exact absurd (List.cons.inj (List.cons.inj heq).2).1 hclose
      · rename_i heq
        obtain rfl := (List.cons.inj heq).2
        rw [hread, List.map_id]
        rfl
      · rename_i heq
        exact absurd rfl (heq _)
  | _ => exact h.elim

theorem readMember_encode {name : String} {value : JsonValue} (h : value.IsPlain) {c : Char}
    (hc : IsEnd c) (rest : List Char) :
    readMember ((quoteWith escapeAscii name ++ ':' :: encode escapeAscii value) ++ c :: rest) =
      some ((name, value), c :: rest) := by
  rw [List.append_assoc, List.cons_append, readMember, readString_quoteWith]
  simp only [Option.bind_eq_bind, Option.bind_some, readPlain_encode h hc, Option.map_some]

/-- The text of a member. -/
def memberText (member : String × JsonValue) : List Char :=
  quoteWith escapeAscii member.1 ++ ':' :: encode escapeAscii member.2

theorem encode_object (members : List (String × JsonValue)) :
    encode escapeAscii (.object members) = '{' ::
      (commaSep ((members.insertionSort fun a b => a.1 ≤ b.1).map memberText) ++ ['}']) := by
  have hsorted := List.map_insertionSort (r := fun a b : String × JsonValue => a.1 ≤ b.1)
    (s := fun a b : String × List Char => a.1 ≤ b.1)
    (fun member : String × JsonValue => (member.1, encode escapeAscii member.2)) members
    (fun _ _ _ _ => Iff.rfl)
  rw [encode, encodeMembers_eq_map, ← hsorted, List.map_map]
  rfl

/-- An object is read back with its members in the order of their names. -/
theorem readObject_dumpsAscii {members : List (String × JsonValue)}
    (h : ∀ member ∈ members, member.2.IsPlain) :
    readObject (object members).dumpsAscii =
      some (.object (members.insertionSort fun a b => a.1 ≤ b.1)) := by
  have hplain : ∀ member ∈ members.insertionSort fun a b => a.1 ≤ b.1, member.2.IsPlain :=
    fun member hmember => h member ((List.mem_insertionSort _).mp hmember)
  rw [readObject, dumpsAscii, String.toList_ofList, encode_object]
  generalize (members.insertionSort fun a b => a.1 ≤ b.1) = sorted at hplain
  cases sorted with
  | nil => rfl
  | cons member sorted =>
    have hmembers : ∀ m ∈ member :: sorted, ∀ d more, d = ',' ∨ d = '}' →
        readMember (memberText m ++ d :: more) = some (id m, d :: more) :=
      fun m hm d more hd =>
        readMember_encode (hplain m hm) (hd.elim .inl fun hd => .inr (.inr hd)) more
    have hfuel := length_le_commaSep_map (f := memberText) (fun m (_ : m ∈ member :: sorted) => ⟨_, _, rfl⟩)
      ['}']
    have hread := readItems_commaSep (by decide) hmembers hfuel (by simp) []
    have hfirst : memberText member = '"' :: _ := rfl
    obtain ⟨more, hmore⟩ := exists_commaSep_map_cons hfirst sorted
    rw [hmore, List.cons_append] at hread ⊢
    split
    · rename_i heq
      cases (List.cons.inj (List.cons.inj heq).2).1
    · rename_i heq
      obtain rfl := (List.cons.inj heq).2
      rw [hread, List.map_id]
    · rename_i heq
      exact absurd rfl (heq _)

end Stel.JsonValue
