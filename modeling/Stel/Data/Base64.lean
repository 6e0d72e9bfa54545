import Mathlib.Data.List.Basic

/-!
# Base64 for URLs

The texts of `base64.urlsafe_b64encode`, and `base64.urlsafe_b64decode` on such texts.

## Main definitions

* `Base64.encode`, `Base64.decode`: bytes as digits and back.
* `Base64.encodeText`, `Base64.decodeText`: the same for the UTF-8 encoding of a text.

## Main results

* `Base64.decode_encode`, `Base64.decodeText_encodeText`: what was encoded is read back.
* `Base64.exists_padded_encode`: an encoding is made of digits and of what fills the last group.
-/

namespace Stel.Base64

/-- The digit of six bits. -/
def digit (n : ℕ) : Char :=
  if n < 26 then Char.ofNat (65 + n)
  else if n < 52 then Char.ofNat (71 + n)
  else if n < 62 then Char.ofNat (n - 4)
  else if n = 62 then '-' else '_'

/-- The six bits of a digit. -/
def bits (c : Char) : Option ℕ :=
  if 'A' ≤ c ∧ c ≤ 'Z' then some (c.toNat - 65)
  else if 'a' ≤ c ∧ c ≤ 'z' then some (c.toNat - 71)
  else if '0' ≤ c ∧ c ≤ '9' then some (c.toNat + 4)
  else if c = '-' then some 62
  else if c = '_' then some 63
  else none

theorem bits_digit : ∀ n < 64, bits (digit n) = some n := by decide

theorem digit_ne_pad : ∀ n < 64, digit n ≠ '=' := by decide

/-- The digits of some bytes, in groups of four. -/
def encode : List UInt8 → List Char
  | [] => []
  | [a] => [digit (a.toNat / 4), digit (a.toNat % 4 * 16), '=', '=']
  | [a, b] =>
    [digit (a.toNat / 4), digit (a.toNat % 4 * 16 + b.toNat / 16), digit (b.toNat % 16 * 4), '=']
  | a :: b :: c :: rest =>
    digit (a.toNat / 4) :: digit (a.toNat % 4 * 16 + b.toNat / 16) ::
      digit (b.toNat % 16 * 4 + c.toNat / 64) :: digit (c.toNat % 64) :: encode rest

/-- The bytes of groups of four digits; the last group may be filled. -/
def decode : List Char → Option (List UInt8)
  | [] => some []
  | w :: x :: y :: z :: rest => do
    let w ← bits w
    let x ← bits x
    if rest = [] ∧ y = '=' ∧ z = '=' then return [UInt8.ofNat (w * 4 + x / 16)]
    else do
      let y ← bits y
      if rest = [] ∧ z = '=' then
        return [UInt8.ofNat (w * 4 + x / 16), UInt8.ofNat (x % 16 * 16 + y / 4)]
      else do
        let z ← bits z
        let bytes ← decode rest
        return UInt8.ofNat (w * 4 + x / 16) :: UInt8.ofNat (x % 16 * 16 + y / 4) ::
          UInt8.ofNat (y % 4 * 64 + z) :: bytes
  | _ => none

theorem ofNat_eq {a : UInt8} {n : ℕ} (h : n = a.toNat) : UInt8.ofNat n = a := by
  rw [h, UInt8.ofNat_toNat]

/-- What was encoded is read back. -/
theorem decode_encode (bytes : List UInt8) : decode (encode bytes) = some bytes := by
  induction bytes using encode.induct with
  | case1 => rfl
  | case2 a =>
    have ha := a.toNat_lt
    simp only [encode, decode, bits_digit (a.toNat / 4) (by omega),
      bits_digit (a.toNat % 4 * 16) (by omega), Option.bind_eq_bind, Option.bind_some, and_self,
      if_true]
    rw [ofNat_eq (a := a) (by omega)]
    rfl
  | case3 a b =>
    have ha := a.toNat_lt
    have hb := b.toNat_lt
    simp only [encode, decode, bits_digit (a.toNat / 4) (by omega),
      bits_digit (a.toNat % 4 * 16 + b.toNat / 16) (by omega),
      bits_digit (b.toNat % 16 * 4) (by omega), Option.bind_eq_bind, Option.bind_some,
      digit_ne_pad (b.toNat % 16 * 4) (by omega), false_and, and_false, if_false, and_self, if_true]
    rw [ofNat_eq (a := a) (by omega), ofNat_eq (a := b) (by omega)]
    rfl
  | case4 a b c rest ih =>
    have ha := a.toNat_lt
    have hb := b.toNat_lt
    have hc := c.toNat_lt
    simp only [encode, decode, bits_digit (a.toNat / 4) (by omega),
      bits_digit (a.toNat % 4 * 16 + b.toNat / 16) (by omega),
      bits_digit (b.toNat % 16 * 4 + c.toNat / 64) (by omega),
      bits_digit (c.toNat % 64) (by omega), Option.bind_eq_bind, Option.bind_some,
      digit_ne_pad (b.toNat % 16 * 4 + c.toNat / 64) (by omega),
      digit_ne_pad (c.toNat % 64) (by omega), and_false, if_false, ih]
    rw [ofNat_eq (a := a) (by omega), ofNat_eq (a := b) (by omega), ofNat_eq (a := c) (by omega)]
    rfl

/-- An encoding consists of digits and of at most two characters that fill the last group of four. -/
theorem exists_padded_encode (bytes : List UInt8) : ∃ digits count,
    encode bytes = digits ++ List.replicate count '=' ∧ '=' ∉ digits ∧ count ≤ 2 ∧
      4 ∣ digits.length + count := by
  induction bytes using encode.induct with
  | case1 => exact ⟨[], 0, rfl, by simp, by simp, by simp⟩
  | case2 a =>
    have ha := a.toNat_lt
    refine ⟨[digit (a.toNat / 4), digit (a.toNat % 4 * 16)], 2, rfl, ?_, by simp, by simp⟩
    simp only [List.mem_cons, List.not_mem_nil, or_false, not_or]
    exact ⟨(digit_ne_pad _ (by omega)).symm, (digit_ne_pad _ (by omega)).symm⟩
  | case3 a b =>
    have ha := a.toNat_lt
    have hb := b.toNat_lt
    refine ⟨[digit (a.toNat / 4), digit (a.toNat % 4 * 16 + b.toNat / 16), digit (b.toNat % 16 * 4)],
      1, rfl, ?_, by simp, by simp⟩
    simp only [List.mem_cons, List.not_mem_nil, or_false, not_or]
    exact ⟨(digit_ne_pad _ (by omega)).symm, (digit_ne_pad _ (by omega)).symm,
      (digit_ne_pad _ (by omega)).symm⟩
  | case4 a b c rest ih =>
    have ha := a.toNat_lt
    have hb := b.toNat_lt
    have hc := c.toNat_lt
    obtain ⟨digits, count, hencode, hdigits, hcount, hfour⟩ := ih
    refine ⟨digit (a.toNat / 4) :: digit (a.toNat % 4 * 16 + b.toNat / 16) ::
      digit (b.toNat % 16 * 4 + c.toNat / 64) :: digit (c.toNat % 64) :: digits, count,
      by rw [encode, hencode]; rfl, ?_, hcount, ?_⟩
    · simp only [List.mem_cons, not_or]
      exact ⟨(digit_ne_pad _ (by omega)).symm, (digit_ne_pad _ (by omega)).symm,
        (digit_ne_pad _ (by omega)).symm, (digit_ne_pad _ (by omega)).symm, hdigits⟩
    · simp only [List.length_cons]
      omega

/-! ### Texts -/

/-- The digits of the UTF-8 encoding of a text. -/
def encodeText (s : String) : String := String.ofList (encode s.toUTF8.data.toList)

/-- The text whose UTF-8 encoding has the digits. -/
def decodeText (s : String) : Option String :=
  (decode s.toList).bind fun bytes => String.fromUTF8? ⟨bytes.toArray⟩

/-- A text that was encoded is read back. -/
theorem decodeText_encodeText (s : String) : decodeText (encodeText s) = some s := by
  have hbytes : (⟨s.toUTF8.data.toList.toArray⟩ : ByteArray) = s.toUTF8 := rfl
  rw [decodeText, encodeText, String.toList_ofList, decode_encode, Option.bind_some, hbytes,
    String.fromUTF8?]
  exact dif_pos s.isValidUTF8

end Stel.Base64
