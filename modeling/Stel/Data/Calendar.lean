import Mathlib.Data.List.Basic
import Mathlib.Tactic.IntervalCases

/-!
# Dates and times of the calendar, and their texts

`datetime.date` and `datetime.datetime` with `isoformat`, and the reading of such a text.

## Main definitions

* `Date`, `Offset`, `DateTime`.
* `Date.isoformat`, `DateTime.isoformat`, `readDate`, `readDateTime`.

## Main results

* `readDate_isoformat`, `readDateTime_isoformat`: the text is read back as it was.
-/

namespace Stel.Calendar

/-! ### Numbers of a fixed width -/

/-- The last digits of a number, as many as the width. -/
def pad : ℕ → ℕ → List Char
  | 0, _ => []
  | w + 1, n => pad w (n / 10) ++ [Nat.digitChar (n % 10)]

/-- A number of a fixed width at the start of a text. -/
def readDigits (width : ℕ) (cs : List Char) : Option (ℕ × List Char) :=
  if (cs.take width).length = width ∧ (cs.take width).all Char.isDigit then
    some (Nat.ofDigitChars 10 (cs.take width) 0, cs.drop width)
  else none

/-- A mark at the start of a text. -/
def readMark (c : Char) : List Char → Option (List Char)
  | d :: ds => if d = c then some ds else none
  | [] => none

@[simp] theorem readMark_cons (c : Char) (cs : List Char) : readMark c (c :: cs) = some cs := if_pos rfl

theorem length_pad (w n : ℕ) : (pad w n).length = w := by
  induction w generalizing n with
  | zero => rfl
  | succ w ih => rw [pad, List.length_append, ih, List.length_singleton]

theorem isDigit_digitChar {n : ℕ} (hn : n < 10) : (Nat.digitChar n).isDigit = true := by
  interval_cases n <;> decide

theorem all_isDigit_pad (w n : ℕ) : (pad w n).all Char.isDigit = true := by
  induction w generalizing n with
  | zero => rfl
  | succ w ih =>
    rw [pad, List.all_append, ih, List.all_cons, List.all_nil,
      isDigit_digitChar (Nat.mod_lt _ (by decide))]
    rfl

theorem ofDigitChars_pad {w n : ℕ} (hn : n < 10 ^ w) : Nat.ofDigitChars 10 (pad w n) 0 = n := by
  induction w generalizing n with
  | zero =>
    obtain rfl : n = 0 := Nat.lt_one_iff.mp hn
    exact Nat.ofDigitChars_nil
  | succ w ih =>
    have hdiv : n / 10 < 10 ^ w := Nat.div_lt_of_lt_mul (by rwa [Nat.pow_succ, Nat.mul_comm] at hn)
    rw [pad, Nat.ofDigitChars_append, ih hdiv,
      Nat.ofDigitChars_cons_digitChar_of_lt_ten (Nat.mod_lt _ (by decide)), Nat.ofDigitChars_nil]
    exact Nat.div_add_mod n 10

theorem readDigits_pad {w n : ℕ} (hn : n < 10 ^ w) (rest : List Char) :
    readDigits w (pad w n ++ rest) = some (n, rest) := by
  have htake : (pad w n ++ rest).take w = pad w n := List.take_left' (length_pad w n)
  have hdrop : (pad w n ++ rest).drop w = rest := List.drop_left' (length_pad w n)
  rw [readDigits, htake, hdrop, if_pos ⟨length_pad w n, all_isDigit_pad w n⟩, ofDigitChars_pad hn]

/-! ### Dates -/

/-- The number of days of a month. -/
def daysInMonth (year month : ℕ) : ℕ :=
  if month = 2 then if year % 4 = 0 ∧ (year % 100 ≠ 0 ∨ year % 400 = 0) then 29 else 28
  else if month ∈ [4, 6, 9, 11] then 30 else 31

/-- The numbers are a date. -/
abbrev IsDate (year month day : ℕ) : Prop :=
  1 ≤ year ∧ year ≤ 9999 ∧ 1 ≤ month ∧ month ≤ 12 ∧ 1 ≤ day ∧ day ≤ daysInMonth year month

/-- `datetime.date`. -/
structure Date where
  year : ℕ
  month : ℕ
  day : ℕ
  valid : IsDate year month day
  deriving DecidableEq, Repr

/-- `date.isoformat`. -/
def Date.isoformat (d : Date) : List Char :=
  pad 4 d.year ++ '-' :: (pad 2 d.month ++ '-' :: pad 2 d.day)

/-- A date at the start of a text. -/
def readDate (cs : List Char) : Option (Date × List Char) := do
  let (year, cs) ← readDigits 4 cs
  let cs ← readMark '-' cs
  let (month, cs) ← readDigits 2 cs
  let cs ← readMark '-' cs
  let (day, cs) ← readDigits 2 cs
  if h : IsDate year month day then some (⟨year, month, day, h⟩, cs) else none

theorem daysInMonth_le (year month : ℕ) : daysInMonth year month ≤ 31 := by
  unfold daysInMonth
  split
  · split <;> decide
  · split <;> decide

theorem readDate_isoformat (d : Date) (rest : List Char) :
    readDate (d.isoformat ++ rest) = some (d, rest) := by
  obtain ⟨year, month, day, h⟩ := d
  have hday := Nat.le_trans h.2.2.2.2.2 (daysInMonth_le year month)
  have hyear : year < 10 ^ 4 := by omega
  have hmonth : month < 10 ^ 2 := by omega
  have hday : day < 10 ^ 2 := by omega
  simp only [readDate, Date.isoformat, List.append_assoc, List.cons_append, readDigits_pad hyear,
    readMark_cons, readDigits_pad hmonth, readDigits_pad hday, Option.bind_eq_bind, Option.bind_some,
    dif_pos h]

/-! ### Times -/

/-- The numbers are a time of a day. -/
abbrev IsTime (hour minute second microsecond : ℕ) : Prop :=
  hour < 24 ∧ minute < 60 ∧ second < 60 ∧ microsecond < 1000000

/-- The offset of a time zone from UTC. -/
structure Offset where
  negative : Bool
  hour : ℕ
  minute : ℕ
  second : ℕ
  microsecond : ℕ
  valid : IsTime hour minute second microsecond
  /-- Zero has no sign. -/
  sign : negative = true → ¬ (hour = 0 ∧ minute = 0 ∧ second = 0 ∧ microsecond = 0)
  deriving DecidableEq, Repr

/-- `datetime.datetime`, of which the time zone is its offset. -/
structure DateTime where
  date : Date
  hour : ℕ
  minute : ℕ
  second : ℕ
  microsecond : ℕ
  valid : IsTime hour minute second microsecond
  offset : Option Offset := none
  deriving DecidableEq, Repr

/-- The microseconds behind the seconds, unless there are none. -/
def microseconds (n : ℕ) : List Char := if n = 0 then [] else '.' :: pad 6 n

/-- The text of an offset. -/
def Offset.text (o : Offset) : List Char :=
  (if o.negative then '-' else '+') :: (pad 2 o.hour ++ ':' :: (pad 2 o.minute ++
    if o.second = 0 ∧ o.microsecond = 0 then []
    else ':' :: (pad 2 o.second ++ microseconds o.microsecond)))

/-- `datetime.isoformat`. -/
def DateTime.isoformat (t : DateTime) : List Char :=
  t.date.isoformat ++ 'T' :: (pad 2 t.hour ++ ':' :: (pad 2 t.minute ++ ':' :: (pad 2 t.second ++
    (microseconds t.microsecond ++ t.offset.elim [] Offset.text))))

/-- The microseconds at the start of a text. -/
def readMicroseconds : List Char → Option (ℕ × List Char)
  | '.' :: cs => readDigits 6 cs
  | cs => some (0, cs)

/-- The seconds of an offset, if any. -/
def readOffsetSeconds : List Char → Option (ℕ × ℕ)
  | [] => some (0, 0)
  | c :: cs => do
    let cs ← readMark ':' (c :: cs)
    let (second, cs) ← readDigits 2 cs
    let (microsecond, cs) ← readMicroseconds cs
    if cs = [] then some (second, microsecond) else none

/-- The sign of an offset. -/
def readSign (c : Char) : Option Bool :=
  if c = '-' then some true else if c = '+' then some false else none

/-- An offset that a text consists of. -/
def readOffset : List Char → Option (Option Offset)
  | [] => some none
  | c :: cs => do
    let negative ← readSign c
    let (hour, cs) ← readDigits 2 cs
    let cs ← readMark ':' cs
    let (minute, cs) ← readDigits 2 cs
    let (second, microsecond) ← readOffsetSeconds cs
    if h : IsTime hour minute second microsecond ∧ (negative = true →
        ¬ (hour = 0 ∧ minute = 0 ∧ second = 0 ∧ microsecond = 0)) then
      some (some ⟨negative, hour, minute, second, microsecond, h.1, h.2⟩)
    else none

/-- A time with its date that a text consists of. -/
def readDateTime (cs : List Char) : Option DateTime := do
  let (date, cs) ← readDate cs
  let cs ← readMark 'T' cs
  let (hour, cs) ← readDigits 2 cs
  let cs ← readMark ':' cs
  let (minute, cs) ← readDigits 2 cs
  let cs ← readMark ':' cs
  let (second, cs) ← readDigits 2 cs
  let (microsecond, cs) ← readMicroseconds cs
  let offset ← readOffset cs
  if h : IsTime hour minute second microsecond then
    some ⟨date, hour, minute, second, microsecond, h, offset⟩
  else none

theorem readMicroseconds_append {n : ℕ} (hn : n < 1000000) (rest : List Char)
    (hrest : rest.head? ≠ some '.') : readMicroseconds (microseconds n ++ rest) = some (n, rest) := by
  unfold microseconds
  split
  · rename_i hzero
    subst hzero
    rw [List.nil_append]
    unfold readMicroseconds
    split
    · exact absurd rfl hrest
    · rfl
  · exact readDigits_pad hn rest

theorem readOffsetSeconds_text {second microsecond : ℕ} (hsecond : second < 60)
    (hmicrosecond : microsecond < 1000000) :
    readOffsetSeconds (if second = 0 ∧ microsecond = 0 then []
      else ':' :: (pad 2 second ++ microseconds microsecond)) = some (second, microsecond) := by
  split
  · rename_i hzero
    obtain ⟨rfl, rfl⟩ := hzero
    rfl
  · have hdigits : second < 10 ^ 2 := by omega
    have hmicro := readMicroseconds_append hmicrosecond [] (by simp)
    rw [List.append_nil] at hmicro
    simp only [readOffsetSeconds, readMark_cons, readDigits_pad hdigits, hmicro, Option.bind_eq_bind,
      Option.bind_some, if_true]

theorem readOffset_text (o : Option Offset) : readOffset (o.elim [] Offset.text) = some o := by
  cases o with
  | none => rfl
  | some o =>
    obtain ⟨negative, hour, minute, second, microsecond, h, hsign⟩ := o
    have hhour : hour < 10 ^ 2 := by omega
    have hminute : minute < 10 ^ 2 := by omega
    have hseconds := readOffsetSeconds_text h.2.2.1 h.2.2.2
    have hnegative : readSign (if negative then '-' else '+') = some negative := by
      cases negative <;> rfl
    simp only [Option.elim_some, Offset.text, readOffset, hnegative, readDigits_pad hhour,
      readMark_cons, readDigits_pad hminute, hseconds, Option.bind_eq_bind, Option.bind_some,
      dif_pos (And.intro h hsign)]

theorem readDateTime_isoformat (t : DateTime) : readDateTime t.isoformat = some t := by
  obtain ⟨date, hour, minute, second, microsecond, h, offset⟩ := t
  have hhour : hour < 10 ^ 2 := by omega
  have hminute : minute < 10 ^ 2 := by omega
  have hsecond : second < 10 ^ 2 := by omega
  have hoffset : (offset.elim [] Offset.text).head? ≠ some '.' := by
    cases offset with
    | none => simp
    | some o => cases hnegative : o.negative <;> simp [Offset.text, hnegative]
  simp only [readDateTime, DateTime.isoformat, readDate_isoformat, readMark_cons, readDigits_pad hhour,
    readDigits_pad hminute, readDigits_pad hsecond, readMicroseconds_append h.2.2.2 _ hoffset,
    readOffset_text, Option.bind_eq_bind, Option.bind_some, dif_pos h]

end Stel.Calendar
