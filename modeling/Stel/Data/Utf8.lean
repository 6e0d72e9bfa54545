import Mathlib.Data.List.Infix

/-!
# Decoding UTF-8, errors ignored

A decoder that ignores the bytes of malformed sequences: a byte that does not continue the character before
it begins the next one, and what there is of a character that is not complete is dropped.

## Main definitions

* `decodeIgnore`: the characters of some bytes.
* `takeBytes`: the characters at the beginning whose encodings fit into a number of bytes.

## Main results

* `decodeIgnore_take_encode`: of an encoding that is cut anywhere, the decoder brings back these characters.
* `prefix_takeBytes`: they are the longest such prefix.
-/

namespace Stel.Utf8

/-! ### The decoder -/

/-- The length of an encoded character by its first byte. No character begins with the other bytes. -/
def width (first : UInt8) : ℕ :=
  if first.toNat < 0x80 then 1
  else if first.toNat < 0xC2 then 0
  else if first.toNat < 0xE0 then 2
  else if first.toNat < 0xF0 then 3
  else if first.toNat < 0xF5 then 4
  else 0

/-- The byte continues a character that begins with some bytes. The second byte is not that of a longer form
than needed, of a surrogate or of a number out of range. -/
def continues : List UInt8 → UInt8 → Bool
  | [], _ => false
  | [first], b =>
    (if first.toNat = 0xE0 then 0xA0 else if first.toNat = 0xF0 then 0x90 else 0x80) ≤ b.toNat &&
      b.toNat ≤ if first.toNat = 0xED then 0x9F else if first.toNat = 0xF4 then 0x8F else 0xBF
  | _ :: _ :: _, b => 0x80 ≤ b.toNat && b.toNat ≤ 0xBF

/-- The number of a character of several bytes. -/
def codePoint : List UInt8 → ℕ
  | [] => 0
  | first :: later =>
    later.foldl (fun n b => n * 64 + b.toNat % 64)
      (first.toNat % if width first = 2 then 32 else if width first = 3 then 16 else 8)

/-- The characters of some bytes, after those of a character that is not complete. -/
def decodeAfter : List UInt8 → List UInt8 → List Char
  | _, [] => []
  | pending, b :: bs =>
    if continues pending b then
      if pending.length + 1 = width (pending.headD b) then
        Char.ofNat (codePoint (pending ++ [b])) :: decodeAfter [] bs
      else decodeAfter (pending ++ [b]) bs
    else if width b = 1 then Char.ofNat b.toNat :: decodeAfter [] bs
    else if width b = 0 then decodeAfter [] bs
    else decodeAfter [b] bs

/-- `bytes.decode("utf-8", errors="ignore")`. -/
def decodeIgnore (bytes : List UInt8) : List Char := decodeAfter [] bytes

/-- `str.encode`. -/
def encode (cs : List Char) : List UInt8 := cs.flatMap String.utf8EncodeChar

/-- The characters at the beginning whose encodings fit into a number of bytes. -/
def takeBytes (limit : ℕ) : List Char → List Char
  | [] => []
  | c :: cs => if c.utf8Size ≤ limit then c :: takeBytes (limit - c.utf8Size) cs else []

/-! ### One character -/

/-- Each of the bytes continues a character that begins with those before. -/
def Continued : List UInt8 → List UInt8 → Prop
  | _, [] => True
  | pending, b :: bs => continues pending b = true ∧ Continued (pending ++ [b]) bs

section Characters

variable {first : UInt8} {later rest bs : List UInt8} {c : Char}

/-- Bytes that do not complete a character are kept. -/
theorem decodeAfter_incomplete (h : Continued (first :: later) rest)
    (hlength : later.length + rest.length + 1 < width first) :
    decodeAfter (first :: later) (rest ++ bs) = decodeAfter (first :: (later ++ rest)) bs := by
  induction rest generalizing later with
  | nil => rw [List.nil_append, List.append_nil]
  | cons b rest ih =>
    obtain ⟨hb, hrest⟩ := h
    have hlength' : (later ++ [b]).length + rest.length + 1 < width first := by
      simp only [List.length_cons, List.length_append, List.length_nil] at hlength ⊢
      omega
    have hne : (first :: later).length + 1 ≠ width ((first :: later).headD b) := by
      simp only [List.length_cons, List.headD_cons] at hlength ⊢
      omega
    rw [List.cons_append, decodeAfter, if_pos hb, if_neg hne, List.append_cons later b rest]
    exact ih hrest hlength'

/-- The last byte completes a character. -/
theorem decodeAfter_complete (h : Continued (first :: later) rest) (hne : rest ≠ [])
    (hlength : later.length + rest.length + 1 = width first) :
    decodeAfter (first :: later) (rest ++ bs) =
      Char.ofNat (codePoint (first :: (later ++ rest))) :: decodeAfter [] bs := by
  induction rest generalizing later with
  | nil => exact absurd rfl hne
  | cons b rest ih =>
    obtain ⟨hb, hrest⟩ := h
    rw [List.cons_append, decodeAfter, if_pos hb, List.append_cons later b rest]
    by_cases hnil : rest = []
    · subst hnil
      have hlast : (first :: later).length + 1 = width ((first :: later).headD b) := hlength
      rw [if_pos hlast, List.append_nil]
      rfl
    · have hpositive := List.length_pos_of_ne_nil hnil
      have hlength' : (later ++ [b]).length + rest.length + 1 = width first := by
        simp only [List.length_cons, List.length_append, List.length_nil] at hlength ⊢
        omega
      have hmore : (first :: later).length + 1 ≠ width ((first :: later).headD b) := by
        simp only [List.length_cons, List.headD_cons] at hlength ⊢
        omega
      rw [if_neg hmore]
      exact ih hrest hnil hlength'

theorem Continued.take (h : Continued later rest) (n : ℕ) : Continued later (rest.take n) := by
  induction rest generalizing later n with
  | nil => simpa using h
  | cons b rest ih =>
    cases n with
    | zero => trivial
    | succ n => exact ⟨h.1, ih h.2 n⟩

theorem width_eq_one (h : first.toNat < 0x80) : width first = 1 := if_pos h

theorem width_eq_two (h : 0xC2 ≤ first.toNat) (h' : first.toNat < 0xE0) : width first = 2 := by
  rw [width, if_neg (by omega), if_neg (by omega), if_pos h']

theorem width_eq_three (h : 0xE0 ≤ first.toNat) (h' : first.toNat < 0xF0) : width first = 3 := by
  rw [width, if_neg (by omega), if_neg (by omega), if_neg (by omega), if_pos h']

theorem width_eq_four (h : 0xF0 ≤ first.toNat) (h' : first.toNat < 0xF5) : width first = 4 := by
  rw [width, if_neg (by omega), if_neg (by omega), if_neg (by omega), if_neg (by omega), if_pos h']

theorem toNat_ofNat {n : ℕ} (h : n < 256) : (UInt8.ofNat n).toNat = n := UInt8.toNat_ofNat_of_lt' h

theorem toNat_tail (n : ℕ) : (UInt8.ofNat (n % 0x40 + 0x80)).toNat = n % 0x40 + 0x80 :=
  toNat_ofNat (by omega)

/-- Some bytes are the first byte of a character and those that continue it. -/
structure Encodes (c : Char) (first : UInt8) (rest : List UInt8) : Prop where
  ne_nil : rest ≠ []
  length : rest.length + 1 = width first
  continued : Continued [first] rest
  codePoint : codePoint (first :: rest) = c.toNat

theorem encodes_two (h : 0x7F < c.toNat) (h' : c.toNat ≤ 0x7FF) :
    Encodes c (UInt8.ofNat (c.toNat / 64 % 0x20 + 0xC0)) [UInt8.ofNat (c.toNat % 0x40 + 0x80)] := by
  have hfirst := @toNat_ofNat (c.toNat / 64 % 0x20 + 0xC0) (by omega)
  have hwidth : width (UInt8.ofNat (c.toNat / 64 % 0x20 + 0xC0)) = 2 :=
    width_eq_two (by omega) (by omega)
  refine ⟨List.cons_ne_nil _ _, hwidth.symm, ⟨?_, trivial⟩, ?_⟩
  · simp only [continues, hfirst, toNat_tail, Bool.and_eq_true, decide_eq_true_iff]
    split_ifs <;> omega
  · simp only [codePoint, hwidth, hfirst, toNat_tail, List.foldl_cons, List.foldl_nil, reduceIte]
    omega

theorem encodes_three (h : 0x7FF < c.toNat) (h' : c.toNat ≤ 0xFFFF) :
    Encodes c (UInt8.ofNat (c.toNat / 4096 % 0x10 + 0xE0))
      [UInt8.ofNat (c.toNat / 64 % 0x40 + 0x80), UInt8.ofNat (c.toNat % 0x40 + 0x80)] := by
  have hvalid : c.toNat < 0xD800 ∨ 0xDFFF < c.toNat ∧ c.toNat < 0x110000 := c.valid
  have hfirst := @toNat_ofNat (c.toNat / 4096 % 0x10 + 0xE0) (by omega)
  have hwidth : width (UInt8.ofNat (c.toNat / 4096 % 0x10 + 0xE0)) = 3 :=
    width_eq_three (by omega) (by omega)
  refine ⟨List.cons_ne_nil _ _, hwidth.symm, ⟨?_, ?_, trivial⟩, ?_⟩
  · -- the form is not longer than needed, and the character is no surrogate
    simp only [continues, hfirst, toNat_tail, Bool.and_eq_true, decide_eq_true_iff]
    split_ifs <;> omega
  · simp only [List.singleton_append, continues, toNat_tail, Bool.and_eq_true, decide_eq_true_iff]
    omega
  · simp only [codePoint, hwidth, hfirst, toNat_tail, List.foldl_cons, List.foldl_nil, Nat.reduceEqDiff,
      reduceIte]
    omega

theorem encodes_four (h : 0xFFFF < c.toNat) :
    Encodes c (UInt8.ofNat (c.toNat / 262144 % 0x08 + 0xF0))
      [UInt8.ofNat (c.toNat / 4096 % 0x40 + 0x80), UInt8.ofNat (c.toNat / 64 % 0x40 + 0x80),
        UInt8.ofNat (c.toNat % 0x40 + 0x80)] := by
  have hvalid : c.toNat < 0xD800 ∨ 0xDFFF < c.toNat ∧ c.toNat < 0x110000 := c.valid
  have hfirst := @toNat_ofNat (c.toNat / 262144 % 0x08 + 0xF0) (by omega)
  have hwidth : width (UInt8.ofNat (c.toNat / 262144 % 0x08 + 0xF0)) = 4 :=
    width_eq_four (by omega) (by omega)
  refine ⟨List.cons_ne_nil _ _, hwidth.symm, ⟨?_, ?_, ?_, trivial⟩, ?_⟩
  · -- the form is not longer than needed, and the number is in range
    simp only [continues, hfirst, toNat_tail, Bool.and_eq_true, decide_eq_true_iff]
    split_ifs <;> omega
  · simp only [List.singleton_append, continues, toNat_tail, Bool.and_eq_true, decide_eq_true_iff]
    omega
  · simp only [List.cons_append, List.nil_append, continues, toNat_tail, Bool.and_eq_true,
      decide_eq_true_iff]
    omega
  · simp only [codePoint, hwidth, hfirst, toNat_tail, List.foldl_cons, List.foldl_nil, Nat.reduceEqDiff,
      reduceIte]
    omega

/-- A character is encoded by one byte of its number, or by a first byte and those that continue it. -/
theorem utf8EncodeChar_cases (c : Char) :
    (∃ b, String.utf8EncodeChar c = [b] ∧ width b = 1 ∧ b.toNat = c.toNat) ∨
      ∃ first rest, String.utf8EncodeChar c = first :: rest ∧ Encodes c first rest := by
  rw [String.utf8EncodeChar, ← Char.toNat]
  split
  · rename_i hone
    have hfirst := @toNat_ofNat c.toNat (by omega)
    exact .inl ⟨_, rfl, width_eq_one (by omega), hfirst⟩
  · rename_i hone
    split
    · rename_i htwo
      exact .inr ⟨_, _, rfl, encodes_two (by omega) htwo⟩
    · rename_i htwo
      split
      · rename_i hthree
        exact .inr ⟨_, _, rfl, encodes_three (by omega) hthree⟩
      · rename_i hthree
        exact .inr ⟨_, _, rfl, encodes_four (by omega)⟩

/-- The first byte of a longer character is kept. -/
theorem Encodes.decodeAfter_nil (h : Encodes c first rest) :
    decodeAfter [] (first :: bs) = decodeAfter [first] bs := by
  have hlength := h.length
  have hpositive := List.length_pos_of_ne_nil h.ne_nil
  have hone : width first ≠ 1 := by omega
  have hzero : width first ≠ 0 := by omega
  have hcontinues : ¬ continues [] first = true := Bool.false_ne_true
  rw [decodeAfter, if_neg hcontinues, if_neg hone, if_neg hzero]

/-- The decoder reads a character. -/
theorem decodeAfter_encode (c : Char) (bs : List UInt8) :
    decodeAfter [] (String.utf8EncodeChar c ++ bs) = c :: decodeAfter [] bs := by
  rcases utf8EncodeChar_cases c with ⟨b, heq, hwidth, hnat⟩ | ⟨first, rest, heq, hencodes⟩
  · have hcontinues : ¬ continues [] b = true := Bool.false_ne_true
    rw [heq, List.singleton_append, decodeAfter, if_neg hcontinues, if_pos hwidth, hnat, Char.ofNat_toNat]
  · have hlength : ([] : List UInt8).length + rest.length + 1 = width first := by
      rw [List.length_nil, Nat.zero_add, hencodes.length]
    rw [heq, List.cons_append, hencodes.decodeAfter_nil,
      decodeAfter_complete hencodes.continued hencodes.ne_nil hlength, List.nil_append, hencodes.codePoint,
      Char.ofNat_toNat]

/-- The decoder drops a part of a character at the end. -/
theorem decodeAfter_take_encode (c : Char) {n : ℕ} (h : n < c.utf8Size) :
    decodeAfter [] ((String.utf8EncodeChar c).take n) = [] := by
  rw [← String.length_utf8EncodeChar] at h
  cases n with
  | zero => rfl
  | succ n =>
    rcases utf8EncodeChar_cases c with ⟨b, heq, -, -⟩ | ⟨first, rest, heq, hencodes⟩
    · rw [heq, List.length_singleton] at h
      omega
    · rw [heq, List.length_cons] at h
      have hlength : ([] : List UInt8).length + (rest.take n).length + 1 < width first := by
        rw [List.length_nil, Nat.zero_add, ← hencodes.length, List.length_take]
        omega
      have hpartial := @decodeAfter_incomplete first [] (rest.take n) [] (hencodes.continued.take n) hlength
      rw [List.append_nil] at hpartial
      rw [heq, List.take_succ_cons, hencodes.decodeAfter_nil, hpartial, decodeAfter]

end Characters

/-! ### Encodings that are cut -/

section Cut

variable {limit : ℕ} {cs kept : List Char}

theorem encode_cons (c : Char) (cs : List Char) : encode (c :: cs) = String.utf8EncodeChar c ++ encode cs :=
  List.flatMap_cons

theorem length_encode_cons (c : Char) (cs : List Char) :
    (encode (c :: cs)).length = c.utf8Size + (encode cs).length := by
  rw [encode_cons, List.length_append, String.length_utf8EncodeChar]

/-- Of an encoding that is cut, the characters that fit come back. -/
theorem decodeIgnore_take_encode : decodeIgnore ((encode cs).take limit) = takeBytes limit cs := by
  unfold decodeIgnore
  induction cs generalizing limit with
  | nil => simp [encode, decodeAfter, takeBytes]
  | cons c cs ih =>
    rw [encode_cons, takeBytes, List.take_append, String.length_utf8EncodeChar]
    by_cases hfits : c.utf8Size ≤ limit
    · have hwhole : (String.utf8EncodeChar c).take limit = String.utf8EncodeChar c :=
        List.take_of_length_le (by rwa [String.length_utf8EncodeChar])
      rw [if_pos hfits, hwhole, decodeAfter_encode, ih]
    · have hzero : limit - c.utf8Size = 0 := by omega
      rw [if_neg hfits, hzero, List.take_zero, List.append_nil, decodeAfter_take_encode c (by omega)]

theorem takeBytes_isPrefix : takeBytes limit cs <+: cs := by
  induction cs generalizing limit with
  | nil => exact List.prefix_refl _
  | cons c cs ih =>
    rw [takeBytes]
    split
    · exact (List.prefix_cons_inj c).mpr ih
    · exact List.nil_prefix

theorem length_encode_takeBytes : (encode (takeBytes limit cs)).length ≤ limit := by
  induction cs generalizing limit with
  | nil => exact Nat.zero_le _
  | cons c cs ih =>
    rw [takeBytes]
    split
    · have hrest := @ih (limit - c.utf8Size)
      rw [length_encode_cons]
      omega
    · exact Nat.zero_le _

/-- They are the longest beginning that fits. -/
theorem prefix_takeBytes (h : kept <+: cs) (hfits : (encode kept).length ≤ limit) :
    kept <+: takeBytes limit cs := by
  induction cs generalizing limit kept with
  | nil => exact h
  | cons c cs ih =>
    cases kept with
    | nil => exact List.nil_prefix
    | cons d kept =>
      obtain ⟨rfl, hrest⟩ := List.cons_prefix_cons.mp h
      rw [length_encode_cons] at hfits
      rw [takeBytes, if_pos (by omega)]
      exact (List.prefix_cons_inj d).mpr (ih hrest (by omega))

end Cut

end Stel.Utf8
